import Mathlib.Data.List.DropRight
import Mathlib.Data.List.Infix
import Mathlib.Data.Nat.ModEq

/-!
# Reading text

Texts are lists of characters, cut into lines, words and numerals in the way of a
standard library.  Each way of cutting undoes the way of writing that goes with
it.
-/

namespace LowLatency
namespace Foundation

abbrev Text : Type :=
  List Char

namespace Text

/-- The code points with the property `White_Space`. -/
def whitespace : List (Nat × Nat) :=
  [(0x9, 0xD), (0x20, 0x20), (0x85, 0x85), (0xA0, 0xA0), (0x1680, 0x1680),
    (0x2000, 0x200A), (0x2028, 0x2029), (0x202F, 0x202F), (0x205F, 0x205F),
    (0x3000, 0x3000)]

def isWhitespace (c : Char) : Bool :=
  whitespace.any (fun r => r.1 ≤ c.toNat && c.toNat ≤ r.2)

def trimStart (s : Text) : Text :=
  s.dropWhile isWhitespace

def trim (s : Text) : Text :=
  (trimStart s).rdropWhile isWhitespace

def splitOnce (c : Char) : Text -> Option (Text × Text)
  | [] => none
  | d :: s =>
      if d = c then some ([], s)
      else (splitOnce c s).map (fun p => (d :: p.1, p.2))

def splitWhitespace (s : Text) : List Text :=
  (s.splitOnP isWhitespace).filter (fun t => !t.isEmpty)

def stripCarriageReturn (s : Text) : Text :=
  if s.getLast? = some '\r' then s.dropLast else s

/-- A line ends with a newline, or a carriage return and a newline, or the text. -/
def lines (s : Text) : List Text :=
  let parts := s.splitOn '\n'
  parts.dropLast.map stripCarriageReturn ++
    match parts.getLast? with
    | some [] => []
    | some last => [last]
    | none => []

def stripPrefix (p s : Text) : Option Text :=
  if p.isPrefixOf s then some (s.drop p.length) else none

/-- Each round takes one character at least. -/
def trimStartMatches (p s : Text) : Text :=
  go s.length s
where
  go : Nat -> Text -> Text
    | 0, s => s
    | fuel + 1, s =>
        match stripPrefix p s with
        | some rest => go fuel rest
        | none => s

def dropPlus : Text -> Text
  | '+' :: rest => rest
  | s => s

/-- A numeral of a `w`-bit unsigned integer, with an optional plus sign. -/
def parseUnsigned (w : Nat) (s : Text) : Option Nat :=
  let digits := dropPlus s
  let n := Nat.ofDigitChars 10 digits 0
  if !digits.isEmpty && digits.all Char.isDigit && n < 2 ^ w then some n
  else none

def decimal (n : Nat) : Text :=
  Nat.toDigits 10 n

/-!
## Numerals
-/

theorem decimal_ne_nil (n : Nat) : decimal n ≠ [] :=
  Nat.toDigits_ne_nil

theorem isDigit_of_mem_decimal {n : Nat} {c : Char} (h : c ∈ decimal n) :
    c.isDigit = true :=
  Nat.isDigit_of_mem_toDigits (by decide) (by decide) h

theorem not_mem_decimal {c : Char} (hc : c.isDigit = false) (n : Nat) :
    c ∉ decimal n := by
  intro hmem
  rw [isDigit_of_mem_decimal hmem] at hc
  cases hc

theorem dropPlus_eq_self {s : Text} (h : '+' ∉ s) : dropPlus s = s := by
  unfold dropPlus
  split
  · exact absurd List.mem_cons_self h
  · rfl

theorem mem_dropPlus {s : Text} {c : Char} (h : c ∈ s) (hplus : c ≠ '+') :
    c ∈ dropPlus s := by
  unfold dropPlus
  split
  · rcases List.mem_cons.mp h with heq | hmem
    · exact absurd heq hplus
    · exact hmem
  · exact h

theorem parseUnsigned_decimal {w n : Nat} (h : n < 2 ^ w) :
    parseUnsigned w (decimal n) = some n := by
  have hvalue : Nat.ofDigitChars 10 (decimal n) 0 = n :=
    Nat.ofDigitChars_ten_toDigits
  have hall : (decimal n).all Char.isDigit = true :=
    List.all_eq_true.mpr (fun _ hc => isDigit_of_mem_decimal hc)
  have hsome : (!(decimal n).isEmpty) = true := by
    rw [Bool.not_eq_true', List.isEmpty_eq_false_iff]
    exact decimal_ne_nil n
  unfold parseUnsigned
  simp only
  rw [dropPlus_eq_self (not_mem_decimal rfl n), hvalue, hall, hsome,
    decide_eq_true h]
  rfl

theorem parseUnsigned_eq_none {w : Nat} {s : Text} {c : Char} (hc : c ∈ s)
    (hdigit : c.isDigit = false) (hplus : c ≠ '+') :
    parseUnsigned w s = none := by
  have hspoilt : (dropPlus s).all Char.isDigit = false :=
    List.all_eq_false.mpr
      ⟨c, mem_dropPlus hc hplus, ne_true_of_eq_false hdigit⟩
  unfold parseUnsigned
  simp only
  rw [hspoilt, Bool.and_false]
  rfl

theorem parseUnsigned_eq_none_of_no_digit {w : Nat} {s : Text}
    (h : forall c, c ∈ s -> c.isDigit = false) : parseUnsigned w s = none := by
  have hdigits : forall c, c ∈ dropPlus s -> c.isDigit = false := by
    intro c hc
    unfold dropPlus at hc
    split at hc
    · exact h c (List.mem_cons_of_mem _ hc)
    · exact h c hc
  unfold parseUnsigned
  simp only
  cases hdrop : dropPlus s with
  | nil => rfl
  | cons c rest =>
      rw [hdrop] at hdigits
      rw [List.all_cons, hdigits c List.mem_cons_self, Bool.false_and,
        Bool.and_false]
      rfl

theorem isWhitespace_of_isDigit {c : Char} (h : c.isDigit = true) :
    isWhitespace c = false := by
  have hranges : forall r, r ∈ whitespace -> r.2 < 48 ∨ 57 < r.1 := by
    decide
  rcases Bool.and_eq_true_iff.mp h with ⟨hlow, hhigh⟩
  have hlow' : 48 ≤ c.toNat :=
    UInt32.le_iff_toNat_le.mp (of_decide_eq_true hlow)
  have hhigh' : c.toNat ≤ 57 :=
    UInt32.le_iff_toNat_le.mp (of_decide_eq_true hhigh)
  refine List.any_eq_false.mpr (fun r hr hin => ?_)
  rcases Bool.and_eq_true_iff.mp hin with ⟨hfirst, hlast⟩
  have hfirst' := of_decide_eq_true hfirst
  have hlast' := of_decide_eq_true hlast
  rcases hranges r hr with hbefore | hafter
  · exact absurd (Nat.lt_of_le_of_lt hlast' hbefore) (Nat.not_lt.mpr hlow')
  · exact absurd (Nat.lt_of_lt_of_le hafter hfirst') (Nat.not_lt.mpr hhigh')

/-!
## Separators
-/

theorem splitOnce_eq_none {c : Char} {s : Text} (h : c ∉ s) :
    splitOnce c s = none := by
  induction s with
  | nil => rfl
  | cons d s ih =>
      have hd : d ≠ c := by
        intro heq
        exact h (heq ▸ List.mem_cons_self)
      rw [splitOnce, if_neg hd, ih (fun hmem => h (List.mem_cons_of_mem d hmem))]
      rfl

theorem splitOnce_append {c : Char} {s : Text} (h : c ∉ s) (t : Text) :
    splitOnce c (s ++ c :: t) = some (s, t) := by
  induction s with
  | nil => exact if_pos rfl
  | cons d s ih =>
      have hd : d ≠ c := by
        intro heq
        exact h (heq ▸ List.mem_cons_self)
      rw [List.cons_append, splitOnce, if_neg hd,
        ih (fun hmem => h (List.mem_cons_of_mem d hmem))]
      rfl

theorem stripPrefix_append (p s : Text) : stripPrefix p (p ++ s) = some s := by
  unfold stripPrefix
  rw [if_pos (List.isPrefixOf_iff_prefix.mpr (List.prefix_append p s)),
    List.drop_left]

theorem stripPrefix_eq_none {p s : Text} (h : ¬ p <+: s) :
    stripPrefix p s = none :=
  if_neg (fun hprefix => h (List.isPrefixOf_iff_prefix.mp hprefix))

theorem trimStartMatches_append {p s : Text} (hp : p ≠ [])
    (hs : ¬ p <+: s) : trimStartMatches p (p ++ s) = s := by
  have hlength : (p ++ s).length = p.length - 1 + s.length + 1 := by
    have hpos := List.length_pos_iff.mpr hp
    rw [List.length_append]
    lia
  unfold trimStartMatches
  rw [hlength, trimStartMatches.go, stripPrefix_append]
  dsimp only
  cases p.length - 1 + s.length with
  | zero => rfl
  | succ fuel => rw [trimStartMatches.go, stripPrefix_eq_none hs]

theorem mem_of_mem_splitOn {d c : Char} {s part : Text}
    (hpart : part ∈ s.splitOn d) (hc : c ∈ part) : c ∈ s := by
  induction s generalizing part with
  | nil =>
      rw [List.splitOn_nil, List.mem_singleton] at hpart
      rw [hpart] at hc
      cases hc
  | cons e s ih =>
      rw [List.splitOn_cons_eq_if_modifyHead] at hpart
      split at hpart
      · rcases List.mem_cons.mp hpart with rfl | hrest
        · cases hc
        · exact List.mem_cons_of_mem e (ih hrest hc)
      · cases hparts : s.splitOn d with
        | nil => exact absurd hparts (List.splitOn_ne_nil d s)
        | cons first rest =>
            rw [hparts, List.modifyHead_cons] at hpart
            rw [hparts] at ih
            rcases List.mem_cons.mp hpart with rfl | hrest
            · rcases List.mem_cons.mp hc with rfl | hfirst
              · exact List.mem_cons_self
              · exact List.mem_cons_of_mem e (ih List.mem_cons_self hfirst)
            · exact List.mem_cons_of_mem e
                (ih (List.mem_cons_of_mem first hrest) hc)

/-!
## White space
-/

def IsGap (g : Text) : Prop :=
  forall c, c ∈ g -> isWhitespace c = true

def NoSpace (s : Text) : Prop :=
  forall c, c ∈ s -> isWhitespace c = false

theorem isGap_of_all {g : Text} (h : g.all isWhitespace = true) : IsGap g :=
  List.all_eq_true.mp h

theorem noSpace_of_all {s : Text}
    (h : s.all (fun c => !isWhitespace c) = true) : NoSpace s :=
  fun c hc => Bool.not_eq_true' _ ▸ List.all_eq_true.mp h c hc

theorem NoSpace.decimal (n : Nat) : NoSpace (decimal n) :=
  fun _ h => isWhitespace_of_isDigit (isDigit_of_mem_decimal h)

theorem NoSpace.append {s t : Text} (hs : NoSpace s) (ht : NoSpace t) :
    NoSpace (s ++ t) := by
  intro c hc
  rcases List.mem_append.mp hc with h | h
  · exact hs c h
  · exact ht c h

theorem trimStart_eq_self {s : Text} (h : NoSpace s) : trimStart s = s := by
  cases s with
  | nil => rfl
  | cons c s =>
      exact List.dropWhile_cons_of_neg (by
        rw [h c List.mem_cons_self]
        exact Bool.false_ne_true)

theorem trimStart_gap {g : Text} (hg : IsGap g) (s : Text) :
    trimStart (g ++ s) = trimStart s := by
  induction g with
  | nil => rfl
  | cons c g ih =>
      have hc := hg c List.mem_cons_self
      rw [← ih (fun d hd => hg d (List.mem_cons_of_mem c hd))]
      exact List.dropWhile_cons_of_pos hc

theorem mem_of_mem_trim {s : Text} {c : Char} (h : c ∈ trim s) : c ∈ s :=
  (List.dropWhile_suffix isWhitespace).subset
    ((List.rdropWhile_prefix isWhitespace (trimStart s)).subset h)

theorem trim_append_gap {s g : Text} (hs : NoSpace s) (hg : IsGap g) :
    trim (s ++ g) = s := by
  have hreverse : IsGap g.reverse :=
    fun c hc => hg c (List.mem_reverse.mp hc)
  have hnospace : NoSpace s.reverse :=
    fun c hc => hs c (List.mem_reverse.mp hc)
  have hback : (s ++ g).rdropWhile isWhitespace = s := by
    rw [List.rdropWhile, List.reverse_append]
    have hdrop : (g.reverse ++ s.reverse).dropWhile isWhitespace = s.reverse :=
      (trimStart_gap hreverse s.reverse).trans (trimStart_eq_self hnospace)
    rw [hdrop, List.reverse_reverse]
  unfold trim
  cases s with
  | nil =>
      have hnone : trimStart ([] ++ g) = [] := by
        rw [List.nil_append, ← List.append_nil g, trimStart_gap hg]
        rfl
      rw [hnone]
      rfl
  | cons c s =>
      have hstart : trimStart (c :: s ++ g) = c :: s ++ g :=
        List.dropWhile_cons_of_neg (by
          rw [hs c List.mem_cons_self]
          exact Bool.false_ne_true)
      rw [hstart, hback]

theorem splitWhitespace_gap {g : Text} (hg : IsGap g) (s : Text) :
    splitWhitespace (g ++ s) = splitWhitespace s := by
  induction g with
  | nil => rfl
  | cons c g ih =>
      rw [← ih (fun d hd => hg d (List.mem_cons_of_mem c hd))]
      unfold splitWhitespace
      rw [List.cons_append, List.splitOnP_cons_eq_if_modifyHead,
        if_pos (hg c List.mem_cons_self)]
      rfl

def EndsWord (s : Text) : Prop :=
  s = [] ∨ exists c rest, s = c :: rest ∧ isWhitespace c = true

theorem splitWhitespace_word {t s : Text} (hne : t ≠ []) (ht : NoSpace t)
    (hs : EndsWord s) :
    splitWhitespace (t ++ s) = t :: splitWhitespace s := by
  have hword : (!t.isEmpty) = true := by
    cases t with
    | nil => exact absurd rfl hne
    | cons c rest => rfl
  rcases hs with rfl | ⟨c, rest, rfl, hc⟩
  · unfold splitWhitespace
    rw [List.append_nil, List.splitOnP_eq_singleton ht]
    exact List.filter_cons_of_pos hword
  · rw [splitWhitespace, List.splitOnP_append_cons_of_forall_mem ht c hc]
    have hgap : IsGap [c] := by
      intro d hd
      rw [List.mem_singleton.mp hd]
      exact hc
    have hrest : splitWhitespace (c :: rest) = splitWhitespace rest :=
      splitWhitespace_gap hgap rest
    rw [hrest]
    exact List.filter_cons_of_pos hword

theorem IsGap.endsWord {g : Text} (hg : IsGap g) : EndsWord g := by
  cases g with
  | nil => exact Or.inl rfl
  | cons c g => exact Or.inr ⟨c, g, rfl, hg c List.mem_cons_self⟩

theorem IsGap.splitWhitespace_eq_nil {g : Text} (hg : IsGap g) :
    splitWhitespace g = [] := by
  rw [← List.append_nil g, splitWhitespace_gap hg]
  rfl

theorem EndsWord.not_prefix_word {p s : Text} (hs : EndsWord s) (hne : p ≠ [])
    (hp : NoSpace p) : ¬ p <+: s := by
  rintro ⟨rest, rfl⟩
  cases p with
  | nil => exact absurd rfl hne
  | cons c p =>
      rcases hs with hnil | ⟨d, tail, heq, hd⟩
      · cases hnil
      · cases heq
        rw [hp c List.mem_cons_self] at hd
        cases hd

def columns (words : List (Text × Text)) : Text :=
  words.flatMap (fun p => p.1 ++ p.2)

def IsColumn (p : Text × Text) : Prop :=
  (p.1 ≠ [] ∧ IsGap p.1) ∧ (p.2 ≠ [] ∧ NoSpace p.2)

theorem endsWord_columns {words : List (Text × Text)} {rest : Text}
    (hwords : forall p, p ∈ words -> IsColumn p) (hrest : EndsWord rest) :
    EndsWord (columns words ++ rest) := by
  cases words with
  | nil => exact hrest
  | cons p words =>
      rcases hwords p List.mem_cons_self with ⟨⟨hne, hgap⟩, _⟩
      rcases p with ⟨gap, word⟩
      cases gap with
      | nil => exact absurd rfl hne
      | cons c gap =>
          exact Or.inr ⟨c, _, rfl, hgap c List.mem_cons_self⟩

theorem splitWhitespace_columns {words : List (Text × Text)} {rest : Text}
    (hwords : forall p, p ∈ words -> IsColumn p) (hrest : EndsWord rest) :
    splitWhitespace (columns words ++ rest) =
      words.map Prod.snd ++ splitWhitespace rest := by
  induction words with
  | nil => rfl
  | cons p words ih =>
      have htail := fun q hq => hwords q (List.mem_cons_of_mem p hq)
      rcases hwords p List.mem_cons_self with ⟨⟨_, hgap⟩, hne, hword⟩
      have hends := endsWord_columns htail hrest
      rw [columns, List.flatMap_cons, List.append_assoc, List.append_assoc,
        splitWhitespace_gap hgap]
      change splitWhitespace (p.2 ++ (columns words ++ rest)) = _
      rw [splitWhitespace_word hne hword hends, ih htail]
      rfl

/-!
## Lines
-/

def unlines (ls : List Text) : Text :=
  ls.flatMap (fun l => l ++ ['\n'])

def IsLine (l : Text) : Prop :=
  '\n' ∉ l ∧ l.getLast? ≠ some '\r'

theorem splitOn_unlines {ls : List Text}
    (hls : forall l, l ∈ ls -> IsLine l) :
    (unlines ls).splitOn '\n' = ls ++ [[]] := by
  induction ls with
  | nil => rfl
  | cons l ls ih =>
      rw [unlines, List.flatMap_cons, List.append_assoc]
      change (l ++ '\n' :: unlines ls).splitOn '\n' = _
      rw [List.splitOn_append_cons_self_of_not_mem
        (hls l List.mem_cons_self).left,
        ih (fun l' hl' => hls l' (List.mem_cons_of_mem l hl'))]
      rfl

theorem lines_unlines {ls : List Text}
    (hls : forall l, l ∈ ls -> IsLine l) : lines (unlines ls) = ls := by
  have hkept : ls.map stripCarriageReturn = ls.map id :=
    List.map_congr_left (fun l hl => if_neg (hls l hl).right)
  simp only [lines]
  rw [splitOn_unlines hls, List.dropLast_concat, List.getLast?_concat, hkept,
    List.map_id]
  exact List.append_nil ls

def NoBreak (s : Text) : Prop :=
  forall c, c ∈ s -> c ≠ '\n' ∧ c ≠ '\r'

theorem noBreak_of_all {s : Text}
    (h : s.all (fun c => c != '\n' && c != '\r') = true) : NoBreak s := by
  intro c hc
  rcases Bool.and_eq_true_iff.mp (List.all_eq_true.mp h c hc) with ⟨hn, hr⟩
  exact ⟨bne_iff_ne.mp hn, bne_iff_ne.mp hr⟩

theorem NoBreak.isLine {l : Text} (h : NoBreak l) : IsLine l := by
  refine ⟨fun hmem => (h '\n' hmem).left rfl, fun hlast => ?_⟩
  exact (h '\r' (List.mem_of_getLast? hlast)).right rfl

theorem NoBreak.append {s t : Text} (hs : NoBreak s) (ht : NoBreak t) :
    NoBreak (s ++ t) := by
  intro c hc
  rcases List.mem_append.mp hc with h | h
  · exact hs c h
  · exact ht c h

theorem noBreak_flatMap {α : Type _} {xs : List α} {f : α -> Text}
    (h : forall x, NoBreak (f x)) : NoBreak (xs.flatMap f) := by
  intro c hc
  rcases List.mem_flatMap.mp hc with ⟨x, _, hx⟩
  exact h x c hx

theorem noBreak_decimal (n : Nat) : NoBreak (decimal n) := by
  intro c hc
  have hdigit := isDigit_of_mem_decimal hc
  constructor
  · rintro rfl
    cases hdigit
  · rintro rfl
    cases hdigit

/-!
## Words inside a text

A word that lies in a text lies between two of its separators.
-/

theorem infix_append_cons_iff {p s t : Text} {c : Char} (hc : c ∉ p) :
    p <:+: s ++ c :: t <-> p <:+: s ∨ p <:+: t := by
  constructor
  · intro h
    rcases List.infix_append_iff.mp h with hs | htail | ⟨l, r, rfl, hl, hr⟩
    · exact Or.inl hs
    · rcases List.infix_cons_iff.mp htail with hfirst | ht
      · cases p with
        | nil => exact Or.inl List.nil_infix
        | cons d p =>
            rw [(List.cons_prefix_cons.mp hfirst).left] at hc
            exact absurd List.mem_cons_self hc
      · exact Or.inr ht
    · cases r with
      | nil =>
          rw [List.append_nil]
          exact Or.inl hl.isInfix
      | cons d r =>
          rw [(List.cons_prefix_cons.mp hr).left] at hc
          exact absurd (List.mem_append_right l List.mem_cons_self) hc
  · rintro (hs | ht)
    · exact List.infix_append_of_infix_left hs
    · exact List.infix_append_of_infix_right (List.infix_cons ht)

theorem infix_gap_iff {p g : Text} (hp : NoSpace p) (hg : IsGap g) (s : Text) :
    p <:+: g ++ s <-> p <:+: s := by
  induction g with
  | nil => exact Iff.rfl
  | cons c g ih =>
      have hc : c ∉ p := by
        intro hmem
        have hspace := hg c List.mem_cons_self
        rw [hp c hmem] at hspace
        cases hspace
      have hsplit : p <:+: [] ++ c :: (g ++ s) <-> _ :=
        infix_append_cons_iff hc
      rw [List.nil_append] at hsplit
      rw [List.cons_append, hsplit,
        ih (fun d hd => hg d (List.mem_cons_of_mem c hd))]
      constructor
      · rintro (hnil | hs)
        · rw [List.eq_nil_of_infix_nil hnil]
          exact List.nil_infix
        · exact hs
      · exact Or.inr

theorem infix_columns_iff {p start : Text} {words : List (Text × Text)}
    (hp : NoSpace p) (hwords : forall q, q ∈ words -> IsColumn q) :
    p <:+: start ++ columns words <->
      p <:+: start ∨ exists q, q ∈ words ∧ p <:+: q.2 := by
  induction words generalizing start with
  | nil =>
      rw [columns, List.flatMap_nil, List.append_nil]
      constructor
      · exact Or.inl
      · rintro (hstart | ⟨q, hq, _⟩)
        · exact hstart
        · cases hq
  | cons q words ih =>
      rcases hwords q List.mem_cons_self with ⟨⟨hne, hgap⟩, _⟩
      rcases q with ⟨gap, word⟩
      cases gap with
      | nil => exact absurd rfl hne
      | cons c gap =>
          have hc : c ∉ p := by
            intro hmem
            have hspace := hgap c List.mem_cons_self
            rw [hp c hmem] at hspace
            cases hspace
          have hrest : IsGap gap :=
            fun d hd => hgap d (List.mem_cons_of_mem c hd)
          have hshape : start ++ columns ((c :: gap, word) :: words) =
              start ++ c :: (gap ++ (word ++ columns words)) := by
            rw [columns, List.flatMap_cons, List.append_assoc]
            rfl
          rw [hshape, infix_append_cons_iff hc, infix_gap_iff hp hrest,
            ih (fun q hq => hwords q (List.mem_cons_of_mem _ hq)),
            List.exists_mem_cons_iff]

theorem infix_unlines_iff {p : Text} {ls : List Text} (hne : p ≠ [])
    (hp : '\n' ∉ p) :
    p <:+: unlines ls <-> exists l, l ∈ ls ∧ p <:+: l := by
  induction ls with
  | nil =>
      constructor
      · intro h
        exact absurd (List.eq_nil_of_infix_nil h) hne
      · rintro ⟨l, hl, _⟩
        cases hl
  | cons l ls ih =>
      have hshape : unlines (l :: ls) = l ++ '\n' :: unlines ls := by
        rw [unlines, List.flatMap_cons, List.append_assoc]
        rfl
      rw [hshape, infix_append_cons_iff hp, ih, List.exists_mem_cons_iff]

end Text
end Foundation
end LowLatency
