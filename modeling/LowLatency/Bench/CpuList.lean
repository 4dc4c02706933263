import LowLatency.Foundation.Text

/-!
# Lists of cpus

The kernel writes a set of cpus as a list of runs.  The parser skips each part
that it cannot read.
-/

namespace LowLatency
namespace Bench

open Foundation
open Foundation.Text

/-- One part of a list: a run from `a` to `b`, or a single cpu. -/
def parsePart (w : Nat) (part : Text) : List Nat :=
  match splitOnce '-' part with
  | some (a, b) =>
      match parseUnsigned w a, parseUnsigned w b with
      | some a, some b => List.range' a (b + 1 - a)
      | _, _ => []
  | none => (parseUnsigned w part).toList

def parseCpuList (w : Nat) (s : Text) : List Nat :=
  ((s.splitOn ',').filter (fun p => !p.isEmpty)).flatMap (parsePart w)

/-!
## The format of the kernel
-/

/-- The runs of cpus that follow each other, with their first and last cpu. -/
def runs : List Nat -> List (Nat × Nat)
  | [] => []
  | c :: cpus =>
      match runs cpus with
      | [] => [(c, c)]
      | (first, last) :: rest =>
          if c + 1 = first then (c, last) :: rest
          else (c, c) :: (first, last) :: rest

def showRun (r : Nat × Nat) : Text :=
  if r.1 = r.2 then decimal r.1 else decimal r.1 ++ '-' :: decimal r.2

def cpuList (cpus : List Nat) : Text :=
  [','].intercalate ((runs cpus).map showRun)

theorem mem_runs {cpus : List Nat} {r : Nat × Nat} (h : r ∈ runs cpus) :
    r.1 ≤ r.2 ∧ r.2 ∈ cpus := by
  induction cpus generalizing r with
  | nil => cases h
  | cons c cpus ih =>
      unfold runs at h
      split at h
      · rw [List.mem_singleton.mp h]
        exact ⟨Nat.le_refl c, List.mem_cons_self⟩
      · rename_i first last rest hruns
        rw [hruns] at ih
        have hfirst := ih List.mem_cons_self
        split at h
        · rename_i hnext
          rcases List.mem_cons.mp h with rfl | hrest
          · refine ⟨?_, List.mem_cons_of_mem c hfirst.right⟩
            have hle := hfirst.left
            dsimp only at hle ⊢
            lia
          · have hold := ih (List.mem_cons_of_mem _ hrest)
            exact ⟨hold.left, List.mem_cons_of_mem c hold.right⟩
        · rcases List.mem_cons.mp h with rfl | hrest
          · exact ⟨Nat.le_refl c, List.mem_cons_self⟩
          · have hold := ih hrest
            exact ⟨hold.left, List.mem_cons_of_mem c hold.right⟩

def expand (r : Nat × Nat) : List Nat :=
  List.range' r.1 (r.2 + 1 - r.1)

theorem flatMap_expand_runs (cpus : List Nat) :
    (runs cpus).flatMap expand = cpus := by
  induction cpus with
  | nil => rfl
  | cons c cpus ih =>
      have hsingle : expand (c, c) = [c] := by
        show List.range' c (c + 1 - c) = [c]
        rw [Nat.add_sub_cancel_left]
        rfl
      unfold runs
      split
      · rename_i hruns
        rw [hruns] at ih
        rw [List.flatMap_singleton, hsingle, ← ih]
        rfl
      · rename_i first last rest hruns
        rw [hruns, List.flatMap_cons] at ih
        have hle : first ≤ last := by
          have hmem : (first, last) ∈ runs cpus := by
            rw [hruns]
            exact List.mem_cons_self
          exact (mem_runs hmem).left
        split
        · rename_i hnext
          have hlonger : expand (c, last) = c :: expand (first, last) := by
            show List.range' c (last + 1 - c) = _
            have hcount : last + 1 - c = last + 1 - first + 1 := by lia
            rw [hcount, List.range'_succ, hnext]
            rfl
          rw [List.flatMap_cons, hlonger, List.cons_append, ih]
        · rw [List.flatMap_cons, hsingle, List.flatMap_cons, ih]
          rfl

theorem comma_not_mem_showRun (r : Nat × Nat) : ',' ∉ showRun r := by
  have hdecimal : forall n, ',' ∉ decimal n := not_mem_decimal rfl
  unfold showRun
  split
  · exact hdecimal r.1
  · intro hmem
    rcases List.mem_append.mp hmem with h | h
    · exact hdecimal r.1 h
    · rcases List.mem_cons.mp h with heq | h
      · cases heq
      · exact hdecimal r.2 h

theorem showRun_ne_nil (r : Nat × Nat) : showRun r ≠ [] := by
  unfold showRun
  split
  · exact decimal_ne_nil r.1
  · exact List.append_ne_nil_of_left_ne_nil (decimal_ne_nil r.1) _

theorem parsePart_showRun {w : Nat} {r : Nat × Nat} (hle : r.1 ≤ r.2)
    (hbound : r.2 < 2 ^ w) : parsePart w (showRun r) = expand r := by
  have hdash : '-' ∉ decimal r.1 := not_mem_decimal rfl r.1
  have hfirst := parseUnsigned_decimal (Nat.lt_of_le_of_lt hle hbound)
  unfold parsePart showRun
  split_ifs with hsingle
  · rw [splitOnce_eq_none hdash, hfirst]
    show [r.1] = List.range' r.1 (r.2 + 1 - r.1)
    rw [← hsingle, Nat.add_sub_cancel_left]
    rfl
  · rw [splitOnce_append hdash]
    dsimp only
    rw [hfirst, parseUnsigned_decimal hbound]
    rfl

theorem parseCpuList_cpuList {w : Nat} {cpus : List Nat}
    (hbound : forall c, c ∈ cpus -> c < 2 ^ w) :
    parseCpuList w (cpuList cpus) = cpus := by
  have hparts : ((cpuList cpus).splitOn ',').filter (fun p => !p.isEmpty) =
      (runs cpus).map showRun := by
    cases hruns : runs cpus with
    | nil =>
        unfold cpuList
        rw [hruns]
        rfl
    | cons r rest =>
        have hsplit : (cpuList cpus).splitOn ',' = (runs cpus).map showRun := by
          apply List.splitOn_intercalate
          · intro part hpart
            rcases List.mem_map.mp hpart with ⟨r', _, rfl⟩
            exact comma_not_mem_showRun r'
          · rw [hruns]
            exact List.cons_ne_nil _ _
        rw [hsplit, hruns, List.filter_eq_self]
        intro part hpart
        rcases List.mem_map.mp hpart with ⟨r', _, rfl⟩
        rw [Bool.not_eq_true', List.isEmpty_eq_false_iff]
        exact showRun_ne_nil r'
  have heach : forall r, r ∈ runs cpus -> parsePart w (showRun r) = expand r := by
    intro r hr
    rcases mem_runs hr with ⟨hle, hlast⟩
    exact parsePart_showRun hle (hbound r.2 hlast)
  unfold parseCpuList
  rw [hparts, List.flatMap_map]
  exact (List.flatMap_congr heach).trans (flatMap_expand_runs cpus)

theorem noSpace_cpuList (cpus : List Nat) : NoSpace (cpuList cpus) := by
  have hrun : forall r, NoSpace (showRun r) := by
    intro r
    unfold showRun
    split
    · exact NoSpace.decimal r.1
    · refine (NoSpace.decimal r.1).append ?_
      intro c hc
      rcases List.mem_cons.mp hc with rfl | h
      · decide
      · exact NoSpace.decimal r.2 c h
  unfold cpuList
  induction runs cpus with
  | nil =>
      intro c hc
      cases hc
  | cons r rest ih =>
      cases rest with
      | nil =>
          rw [List.map_singleton, List.intercalate_singleton]
          exact hrun r
      | cons r' rest =>
          rw [List.map_cons, List.map_cons, List.intercalate_cons_cons]
          refine ((hrun r).append ?_).append ih
          intro c hc
          rw [List.mem_singleton.mp hc]
          decide

/-!
## Every text
-/

theorem parseCpuList_comma (w : Nat) (s t : Text) :
    parseCpuList w (s ++ ',' :: t) = parseCpuList w s ++ parseCpuList w t := by
  unfold parseCpuList
  rw [List.splitOn_append_cons_self, List.filter_append, List.flatMap_append]

theorem splitOnce_eq_some {c : Char} {s a b : Text}
    (h : splitOnce c s = some (a, b)) : s = a ++ c :: b := by
  induction s generalizing a with
  | nil => cases h
  | cons d s ih =>
      unfold splitOnce at h
      split at h
      · rename_i heq
        cases h
        rw [heq]
        rfl
      · rcases Option.map_eq_some_iff.mp h with ⟨p, hp, hpair⟩
        cases hpair
        rw [ih hp]
        rfl

theorem parsePart_eq_nil {w : Nat} {part : Text} {c : Char} (hc : c ∈ part)
    (hdigit : c.isDigit = false) (hplus : c ≠ '+') (hdash : c ≠ '-') :
    parsePart w part = [] := by
  unfold parsePart
  split
  · rename_i a b hsplit
    rw [splitOnce_eq_some hsplit] at hc
    rcases List.mem_append.mp hc with ha | hb
    · rw [parseUnsigned_eq_none ha hdigit hplus]
    · rcases List.mem_cons.mp hb with heq | hb
      · exact absurd heq hdash
      · rw [parseUnsigned_eq_none hb hdigit hplus]
        cases parseUnsigned w a <;> rfl
  · rw [parseUnsigned_eq_none hc hdigit hplus]
    rfl

theorem parseCpuList_eq_nil {w : Nat} {s : Text}
    (h : forall c, c ∈ s -> c.isDigit = false) : parseCpuList w s = [] := by
  unfold parseCpuList
  rw [List.flatMap_eq_nil_iff]
  intro part hpart
  have hnone : forall c, c ∈ part -> c.isDigit = false :=
    fun c hc => h c (mem_of_mem_splitOn (List.mem_of_mem_filter hpart) hc)
  unfold parsePart
  split
  · rename_i a b hsplit
    have ha : forall c, c ∈ a -> c.isDigit = false := by
      intro c hc
      apply hnone c
      rw [splitOnce_eq_some hsplit]
      exact List.mem_append_left _ hc
    rw [parseUnsigned_eq_none_of_no_digit ha]
  · rw [parseUnsigned_eq_none_of_no_digit hnone]
    rfl

/--
A list written by the kernel is read back, whatever cpus it names.  A list with an
unreadable part in it is read as the list without that part, also when it is the
first or the last one.
-/
theorem cpu_list_round_trip {w : Nat} {cpus more : List Nat} {part : Text}
    {c : Char} (hcpus : forall c, c ∈ cpus -> c < 2 ^ w)
    (hmore : forall c, c ∈ more -> c < 2 ^ w) (hcomma : ',' ∉ part)
    (hc : c ∈ part) (hdigit : c.isDigit = false) (hplus : c ≠ '+')
    (hdash : c ≠ '-') :
    parseCpuList w (cpuList cpus) = cpus ∧
      parseCpuList w (cpuList cpus ++ ',' :: part ++ ',' :: cpuList more) =
        cpus ++ more ∧
      parseCpuList w (part ++ ',' :: cpuList more) = more ∧
      parseCpuList w (cpuList cpus ++ ',' :: part) = cpus ∧
      parseCpuList w part = [] := by
  have hpart : parseCpuList w part = [] := by
    unfold parseCpuList
    rw [List.splitOn_eq_singleton hcomma, List.flatMap_eq_nil_iff]
    intro p hp
    rw [List.mem_singleton.mp (List.mem_of_mem_filter hp)]
    exact parsePart_eq_nil hc hdigit hplus hdash
  refine ⟨parseCpuList_cpuList hcpus, ?_, ?_, ?_, hpart⟩
  · rw [parseCpuList_comma, parseCpuList_comma, parseCpuList_cpuList hcpus,
      parseCpuList_cpuList hmore, hpart, List.append_nil]
  · rw [parseCpuList_comma, hpart, parseCpuList_cpuList hmore, List.nil_append]
  · rw [parseCpuList_comma, hpart, parseCpuList_cpuList hcpus, List.append_nil]

/-- `2-3,5,7-9`, and an unreadable part before, between and after runs. -/
theorem cpu_list_round_trip_runs :
    cpuList [2, 3, 5, 7, 8, 9] =
      ['2', '-', '3', ',', '5', ',', '7', '-', '9'] ∧
    parseCpuList 64 (cpuList [2, 3, 5, 7, 8, 9]) = [2, 3, 5, 7, 8, 9] ∧
    parseCpuList 64 (cpuList [2, 3, 5, 7, 8, 9] ++ ',' :: ['4', 'x'] ++
      ',' :: cpuList [11, 12]) = [2, 3, 5, 7, 8, 9] ++ [11, 12] ∧
    parseCpuList 64 (['4', 'x'] ++ ',' :: cpuList [11, 12]) = [11, 12] ∧
    parseCpuList 64 (cpuList [2, 3, 5, 7, 8, 9] ++ ',' :: ['4', 'x']) =
      [2, 3, 5, 7, 8, 9] ∧
    parseCpuList 64 ['4', 'x'] = [] :=
  ⟨by decide +kernel,
    cpu_list_round_trip (by decide) (by decide) (by decide)
      (List.mem_cons_of_mem '4' List.mem_cons_self) (by decide) (by decide)
      (by decide)⟩

end Bench
end LowLatency
