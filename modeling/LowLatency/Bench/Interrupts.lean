import LowLatency.Bench.Preflight

/-!
# The counters of local timer interrupts

The table of interrupts has a column for each cpu that is online, so a cpu is
found by the header and not by its number.  A counter is never that of another
cpu, also when cpus come and go between two reads.
-/

namespace LowLatency
namespace Bench

open Foundation
open Foundation.Text

def headerCpus (w : Nat) (header : Text) : List Nat :=
  (splitWhitespace header).filterMap
    (fun tok => (stripPrefix "CPU".toList tok).bind (parseUnsigned w))

def isLocLine (l : Text) : Bool :=
  "LOC:".toList.isPrefixOf (trimStart l)

def locCounts (l : Text) : List Nat :=
  (splitWhitespace (trimStartMatches "LOC:".toList (trimStart l))).filterMap
    (parseUnsigned 64)

namespace Host

def readLoc (host : Host) (cpus : List Nat) : List (Option Nat) :=
  match host.readToString "/proc/interrupts" with
  | none => List.replicate cpus.length none
  | some contents =>
      match lines contents with
      | [] => List.replicate cpus.length none
      | header :: rest =>
          let columns := headerCpus host.usizeBits header
          match rest.find? isLocLine with
          | none => List.replicate cpus.length none
          | some l =>
              let counts := locCounts l
              cpus.map (fun cpu =>
                (columns.idxOf? cpu).bind (fun col => counts[col]?))

end Host

/-- The last part of `measure_at_rate`.  Differences stop at zero. -/
def locDelta (cores : List Nat) (locBefore locAfter : List (Option Nat)) :
    List (Nat × Option Nat) :=
  cores.zipIdx.map (fun p =>
    (p.1, match locBefore[p.2]?.join, locAfter[p.2]?.join with
      | some b, some a => some (a - b)
      | _, _ => none))

/-!
## The table of the kernel
-/

/--
A table with a line for the local timer, between others and with a description.
The gaps of the header and of the counters are of any width.
-/
structure Host.ShowsLoc (host : Host) (online : List Nat) (count : Nat -> Nat) :
    Prop where
  shown : exists heads counts margin before lead description after,
    heads.map Prod.snd = online.map (fun c => "CPU".toList ++ decimal c) ∧
    counts.map Prod.snd = online.map (fun c => decimal (count c)) ∧
    (forall p, p ∈ heads ++ counts -> IsColumn p) ∧
    IsGap margin ∧ IsGap lead ∧
    (forall l, l ∈ before -> isLocLine l = false) ∧
    EndsWord description ∧
    (forall tok, tok ∈ splitWhitespace description ->
      parseUnsigned 64 tok = none) ∧
    (let header := columns heads ++ margin
      let loc := lead ++ ("LOC:".toList ++ (columns counts ++ description))
      (forall l, l ∈ header :: (before ++ loc :: after) -> IsLine l) ∧
      host.readToString "/proc/interrupts" =
        some (unlines (header :: (before ++ loc :: after))))
  range : forall c, c ∈ online -> c < 2 ^ host.usizeBits ∧ count c < 2 ^ 64

theorem noSpace_cpu : NoSpace "CPU".toList :=
  noSpace_of_all (by decide +kernel)

theorem noSpace_loc : NoSpace "LOC:".toList :=
  noSpace_of_all (by decide +kernel)

theorem loc_ne_nil : "LOC:".toList ≠ [] := by
  decide +kernel

theorem headerCpus_header {w : Nat} {heads : List (Text × Text)}
    {online : List Nat} {margin : Text}
    (hheads : heads.map Prod.snd =
      online.map (fun c => "CPU".toList ++ decimal c))
    (hcolumns : forall p, p ∈ heads -> IsColumn p) (hmargin : IsGap margin)
    (hrange : forall c, c ∈ online -> c < 2 ^ w) :
    headerCpus w (columns heads ++ margin) = online := by
  have hread : forall c, c ∈ online ->
      (stripPrefix "CPU".toList ("CPU".toList ++ decimal c)).bind
        (parseUnsigned w) = some c := by
    intro c hc
    rw [stripPrefix_append, Option.bind_some,
      parseUnsigned_decimal (hrange c hc)]
  rw [headerCpus, splitWhitespace_columns hcolumns hmargin.endsWord,
    hmargin.splitWhitespace_eq_nil, List.append_nil, hheads,
    List.filterMap_map]
  exact (List.filterMap_congr hread).trans List.filterMap_some

theorem trimStart_loc {lead : Text} (hlead : IsGap lead) (rest : Text) :
    trimStart (lead ++ ("LOC:".toList ++ rest)) = "LOC:".toList ++ rest := by
  rw [trimStart_gap hlead]
  exact List.dropWhile_cons_of_neg (by decide +kernel)

theorem locCounts_loc {counts : List (Text × Text)} {online : List Nat}
    {count : Nat -> Nat} {lead description : Text}
    (hcounts : counts.map Prod.snd = online.map (fun c => decimal (count c)))
    (hcolumns : forall p, p ∈ counts -> IsColumn p) (hlead : IsGap lead)
    (hdescription : EndsWord description)
    (hwords : forall tok, tok ∈ splitWhitespace description ->
      parseUnsigned 64 tok = none)
    (hrange : forall c, c ∈ online -> count c < 2 ^ 64) :
    locCounts (lead ++ ("LOC:".toList ++ (columns counts ++ description))) =
      online.map count := by
  have hends := endsWord_columns hcolumns hdescription
  have hread : forall c, c ∈ online ->
      parseUnsigned 64 (decimal (count c)) = some (count c) :=
    fun c hc => parseUnsigned_decimal (hrange c hc)
  rw [locCounts, trimStart_loc hlead, trimStartMatches_append loc_ne_nil
      (hends.not_prefix_word loc_ne_nil noSpace_loc),
    splitWhitespace_columns hcolumns hdescription, List.filterMap_append,
    hcounts, List.filterMap_map, List.filterMap_eq_nil_iff.mpr hwords,
    List.append_nil]
  rw [← List.filterMap_eq_map']
  exact List.filterMap_congr hread

theorem getElem?_map_idxOf? (online : List Nat) (count : Nat -> Nat) (c : Nat) :
    (online.idxOf? c).bind (fun col => (online.map count)[col]?) =
      if c ∈ online then some (count c) else none := by
  cases hcol : online.idxOf? c with
  | none =>
      rw [if_neg (List.idxOf?_eq_none_iff.mp hcol)]
      rfl
  | some col =>
      rcases List.idxOf?_eq_some_iff.mp hcol with ⟨hlt, heq, _⟩
      have hget : online[col]? = some c :=
        List.getElem?_eq_some_iff.mpr ⟨hlt, heq⟩
      rw [if_pos (List.mem_of_getElem? hget), Option.bind_some,
        List.getElem?_map, hget]
      rfl

/-- Every requested cpu gets its own counter, or none while it is offline. -/
theorem Host.ShowsLoc.readLoc {host : Host} {online : List Nat}
    {count : Nat -> Nat} (h : host.ShowsLoc online count) (cpus : List Nat) :
    host.readLoc cpus =
      cpus.map (fun c => if c ∈ online then some (count c) else none) := by
  rcases h.shown with ⟨heads, counts, margin, before, lead, description, after,
    hheads, hcounts, hcolumns, hmargin, hlead, hbefore, hdescription, hwords,
    hlines, hread⟩
  have hfirst : isLocLine (lead ++ ("LOC:".toList ++
      (columns counts ++ description))) = true := by
    rw [isLocLine, trimStart_loc hlead]
    exact List.isPrefixOf_iff_prefix.mpr (List.prefix_append _ _)
  have hnone : before.find? isLocLine = none :=
    List.find?_eq_none.mpr (fun l hl => Bool.not_eq_true _ ▸ hbefore l hl)
  unfold Host.readLoc
  rw [hread]
  dsimp only
  rw [lines_unlines hlines]
  dsimp only
  rw [List.find?_append, hnone, Option.none_or, List.find?_cons_of_pos hfirst]
  dsimp only
  rw [headerCpus_header hheads
      (fun p hp => hcolumns p (List.mem_append_left _ hp)) hmargin
      (fun c hc => (h.range c hc).left),
    locCounts_loc hcounts
      (fun p hp => hcolumns p (List.mem_append_right _ hp)) hlead hdescription
      hwords (fun c hc => (h.range c hc).right)]
  exact List.map_congr_left
    (fun c _ => getElem?_map_idxOf? online count c)

/--
The difference shown for a cpu is that of its own counter, and none is shown if it
was offline at one of the reads.
-/
theorem loc_delta_exact {host₁ host₂ : Host} {online₁ online₂ : List Nat}
    {count₁ count₂ : Nat -> Nat} (h₁ : host₁.ShowsLoc online₁ count₁)
    (h₂ : host₂.ShowsLoc online₂ count₂) (cores : List Nat) :
    locDelta cores (host₁.readLoc cores) (host₂.readLoc cores) =
      cores.map (fun c => (c,
        if c ∈ online₁ ∧ c ∈ online₂ then some (count₂ c - count₁ c)
        else none)) := by
  have heach : forall p, p ∈ cores.zipIdx ->
      (p.1, match (host₁.readLoc cores)[p.2]?.join,
            (host₂.readLoc cores)[p.2]?.join with
        | some b, some a => some (a - b)
        | _, _ => none) =
      (p.1, if p.1 ∈ online₁ ∧ p.1 ∈ online₂ then
          some (count₂ p.1 - count₁ p.1)
        else none) := by
    rintro ⟨c, i⟩ hmem
    have hget : cores[i]? = some c := List.mem_zipIdx_iff_getElem?.mp hmem
    rw [h₁.readLoc, h₂.readLoc, List.getElem?_map, List.getElem?_map, hget]
    dsimp only [Option.map_some, Option.join_some]
    by_cases hc₁ : c ∈ online₁
    · by_cases hc₂ : c ∈ online₂
      · rw [if_pos hc₁, if_pos hc₂, if_pos ⟨hc₁, hc₂⟩]
      · rw [if_pos hc₁, if_neg hc₂, if_neg (fun h => hc₂ h.right)]
    · have hboth : ¬ (c ∈ online₁ ∧ c ∈ online₂) :=
        fun h => hc₁ h.left
      rw [if_neg hc₁, if_neg hboth]
  unfold locDelta
  rw [List.map_congr_left heach]
  have hfst := List.zipIdx_map_fst 0 cores
  rw [← hfst, List.map_map, hfst]
  rfl

/-!
## The spacing of the kernel
-/

def blanks (n : Nat) : Text :=
  List.replicate n ' '

/-- The format `%*s`. -/
def padLeft (width : Nat) (s : Text) : Text :=
  blanks (width - s.length) ++ s

/-- The format `%-*s`. -/
def padRight (width : Nat) (s : Text) : Text :=
  s ++ blanks (width - s.length)

def locHeader (prec : Nat) (online : List Nat) : Text :=
  blanks (prec + 8) ++
    online.flatMap (fun c => "CPU".toList ++ padRight 8 (decimal c))

def locLine (prec : Nat) (online : List Nat) (count : Nat -> Nat) : Text :=
  padLeft prec "LOC".toList ++ ": ".toList ++
    online.flatMap (fun c => padLeft 10 (decimal (count c)) ++ " ".toList) ++
    "  Local timer interrupts".toList

def locHost (prec : Nat) (online : List Nat) (count : Nat -> Nat) : Host where
  usizeBits := 64
  debugAssertions := false
  readToString := fun path =>
    if path = "/proc/interrupts" then
      some (unlines [locHeader prec online,
        "  0:   7   0 IO-APIC   2-edge   timer".toList,
        locLine prec online count])
    else none

theorem isGap_blanks (n : Nat) : IsGap (blanks n) := by
  intro c hc
  rw [List.eq_of_mem_replicate hc]
  decide

theorem exists_columns {α : Type} (xs : List α) (word lead trail : α -> Text)
    (hword : forall x, x ∈ xs -> word x ≠ [] ∧ NoSpace (word x))
    (hlead : forall x, IsGap (lead x))
    (htrail : forall x, x ∈ xs -> trail x ≠ [] ∧ IsGap (trail x))
    {start : Text} (hne : start ≠ []) (hstart : IsGap start) :
    exists words margin,
      start ++ xs.flatMap (fun x => lead x ++ (word x ++ trail x)) =
        columns words ++ margin ∧
      words.map Prod.snd = xs.map word ∧
      (forall p, p ∈ words -> IsColumn p) ∧ margin ≠ [] ∧ IsGap margin := by
  induction xs generalizing start with
  | nil =>
      exact ⟨[], start, List.append_nil start, rfl,
        fun p hp => (by cases hp), hne, hstart⟩
  | cons x xs ih =>
      rcases htrail x List.mem_cons_self with ⟨htrailNe, htrailGap⟩
      rcases ih (fun y hy => hword y (List.mem_cons_of_mem x hy))
        (fun y hy => htrail y (List.mem_cons_of_mem x hy)) htrailNe htrailGap
        with ⟨words, margin, heq, hsnd, hcolumns, hmargin⟩
      refine ⟨(start ++ lead x, word x) :: words, margin, ?_, ?_, ?_, hmargin⟩
      · rw [List.flatMap_cons, columns, List.flatMap_cons]
        change _ = ((start ++ lead x) ++ word x ++ columns words) ++ margin
        rw [List.append_assoc _ (columns words), ← heq]
        simp only [List.append_assoc]
      · rw [List.map_cons, List.map_cons, hsnd]
      · intro p hp
        rcases List.mem_cons.mp hp with rfl | hp
        · refine ⟨⟨List.append_ne_nil_of_left_ne_nil hne _, ?_⟩,
            hword x List.mem_cons_self⟩
          intro c hc
          rcases List.mem_append.mp hc with hc | hc
          · exact hstart c hc
          · exact hlead x c hc
        · exact hcolumns p hp

theorem noBreak_blanks (n : Nat) : NoBreak (blanks n) := by
  intro c hc
  rw [List.eq_of_mem_replicate hc]
  decide

theorem noBreak_locHeader (prec : Nat) (online : List Nat) :
    NoBreak (locHeader prec online) :=
  (noBreak_blanks _).append (noBreak_flatMap (fun c =>
    (noBreak_of_all (by decide +kernel)).append
      ((noBreak_decimal c).append (noBreak_blanks _))))

theorem noBreak_locLine (prec : Nat) (online : List Nat)
    (count : Nat -> Nat) : NoBreak (locLine prec online count) := by
  have hlabel : NoBreak "LOC".toList := noBreak_of_all (by decide +kernel)
  have hcolon : NoBreak ": ".toList := noBreak_of_all (by decide +kernel)
  have hblank : NoBreak " ".toList := noBreak_of_all (by decide +kernel)
  have hname : NoBreak "  Local timer interrupts".toList :=
    noBreak_of_all (by decide +kernel)
  exact ((((noBreak_blanks _).append hlabel).append hcolon).append
    (noBreak_flatMap (fun c =>
      ((noBreak_blanks _).append (noBreak_decimal (count c))).append
        hblank))).append hname

theorem locHeader_columns (prec : Nat) {online : List Nat}
    (hdigits : forall c, c ∈ online -> (decimal c).length < 8) :
    exists heads margin, locHeader prec online = columns heads ++ margin ∧
      heads.map Prod.snd = online.map (fun c => "CPU".toList ++ decimal c) ∧
      (forall p, p ∈ heads -> IsColumn p) ∧ IsGap margin := by
  have hword : forall c, c ∈ online ->
      "CPU".toList ++ decimal c ≠ [] ∧ NoSpace ("CPU".toList ++ decimal c) :=
    fun c _ => ⟨List.append_ne_nil_of_right_ne_nil _ (decimal_ne_nil c),
      noSpace_cpu.append (NoSpace.decimal c)⟩
  have htrail : forall c, c ∈ online -> blanks (8 - (decimal c).length) ≠ [] ∧
      IsGap (blanks (8 - (decimal c).length)) := by
    intro c hc
    have hlt := hdigits c hc
    refine ⟨fun hnil => ?_, isGap_blanks _⟩
    have hzero := (List.replicate_eq_nil_iff _).mp hnil
    lia
  have hstart : blanks (prec + 8) ≠ [] :=
    fun hnil => Nat.succ_ne_zero _ ((List.replicate_eq_nil_iff _).mp hnil)
  rcases exists_columns online (fun c => "CPU".toList ++ decimal c)
      (fun _ => []) (fun c => blanks (8 - (decimal c).length)) hword
      (fun _ c hc => by cases hc) htrail hstart (isGap_blanks _)
    with ⟨heads, margin, hshape, hsnd, hcolumns, _, hmargin⟩
  refine ⟨heads, margin, ?_, hsnd, hcolumns, hmargin⟩
  rw [← hshape]
  simp only [locHeader, padRight, List.nil_append, List.append_assoc]

theorem locLine_columns (prec : Nat) (online : List Nat)
    (count : Nat -> Nat) :
    exists counts margin, locLine prec online count =
        blanks (prec - 3) ++ ("LOC:".toList ++ (columns counts ++
          (margin ++ "  Local timer interrupts".toList))) ∧
      counts.map Prod.snd = online.map (fun c => decimal (count c)) ∧
      (forall p, p ∈ counts -> IsColumn p) ∧ margin ≠ [] ∧ IsGap margin := by
  have hblank : " ".toList ≠ [] ∧ IsGap " ".toList :=
    ⟨by decide +kernel, isGap_of_all (by decide +kernel)⟩
  rcases exists_columns online (fun c => decimal (count c))
      (fun c => blanks (10 - (decimal (count c)).length))
      (fun _ => " ".toList)
      (fun c _ => ⟨decimal_ne_nil _, NoSpace.decimal _⟩)
      (fun c => isGap_blanks _) (fun _ _ => hblank) hblank.left hblank.right
    with ⟨counts, margin, hshape, hsnd, hcolumns, hmargin⟩
  refine ⟨counts, margin, ?_, hsnd, hcolumns, hmargin⟩
  have hlabel : "LOC".toList ++ ": ".toList = "LOC:".toList ++ " ".toList := by
    decide +kernel
  rw [← List.append_assoc (columns counts), ← hshape,
    ← List.append_assoc "LOC:".toList, ← List.append_assoc "LOC:".toList,
    ← hlabel]
  simp only [locLine, padLeft, List.append_assoc]
  rfl

/-- The table as the kernel pads it, for cpus of at most seven digits. -/
theorem locHost_shows (prec : Nat) (online : List Nat) {count : Nat -> Nat}
    (hdigits : forall c, c ∈ online -> (decimal c).length < 8)
    (hrange : forall c, c ∈ online -> c < 2 ^ 64 ∧ count c < 2 ^ 64) :
    (locHost prec online count).ShowsLoc online count := by
  have hlines : forall l, l ∈ [locHeader prec online,
      "  0:   7   0 IO-APIC   2-edge   timer".toList,
      locLine prec online count] -> IsLine l := by
    intro l hl
    rcases List.mem_cons.mp hl with rfl | hl
    · exact (noBreak_locHeader prec online).isLine
    · rcases List.mem_cons.mp hl with rfl | hl
      · exact (noBreak_of_all (by decide +kernel)).isLine
      · rw [List.mem_singleton.mp hl]
        exact (noBreak_locLine prec online count).isLine
  rcases locHeader_columns prec hdigits with
    ⟨heads, margin, hheader, hheads, hheadColumns, hmargin⟩
  rcases locLine_columns prec online count with
    ⟨counts, rest, hloc, hcounts, hcountColumns, hne, hrest⟩
  have hends : EndsWord (rest ++ "  Local timer interrupts".toList) := by
    cases rest with
    | nil => exact absurd rfl hne
    | cons c rest => exact Or.inr ⟨c, _, rfl, hrest c List.mem_cons_self⟩
  have hname : forall tok,
      tok ∈ splitWhitespace (rest ++ "  Local timer interrupts".toList) ->
        parseUnsigned 64 tok = none := by
    rw [splitWhitespace_gap hrest]
    decide +kernel
  rw [hheader, hloc] at hlines
  refine ⟨⟨heads, counts, margin, ["  0:   7   0 IO-APIC   2-edge   timer".toList],
    blanks (prec - 3), rest ++ "  Local timer interrupts".toList, [], hheads,
    hcounts, ?_, hmargin, isGap_blanks _, by decide +kernel, hends, hname,
    hlines, ?_⟩, hrange⟩
  · intro p hp
    rcases List.mem_append.mp hp with hp | hp
    · exact hheadColumns p hp
    · exact hcountColumns p hp
  · show some (unlines [locHeader prec online, _, locLine prec online count]) = _
    rw [hheader, hloc]
    rfl

/-- Cpu 1 goes offline, and cpu 2 has another column then. -/
theorem loc_delta_exact_offline :
    locDelta [2, 1]
        ((locHost 3 [0, 1, 2, 3] (fun c => 1305317 + c)).readLoc [2, 1])
        ((locHost 3 [0, 2, 3] (fun c => 1305327 + 2 * c)).readLoc [2, 1]) =
      [(2, some 12), (1, none)] :=
  loc_delta_exact
    (locHost_shows 3 [0, 1, 2, 3] (by decide) (by decide))
    (locHost_shows 3 [0, 2, 3] (by decide) (by decide)) [2, 1]

end Bench
end LowLatency
