import Mathlib.Data.List.Perm.Basic

/-!
# Ranges of bytes

A range is given by its first byte and the byte after its last one.  A list of
ranges describes a set of bytes; cutting a range out of it keeps what lies on
either side.
-/

namespace LowLatency
namespace Foundation

structure ByteRange where
  start : Nat
  stop : Nat
deriving DecidableEq, Repr

namespace ByteRange

def Disjoint (r r' : ByteRange) : Prop :=
  min r.stop r'.stop ≤ max r.start r'.start

instance (r r' : ByteRange) : Decidable (r.Disjoint r') :=
  inferInstanceAs (Decidable (min r.stop r'.stop ≤ max r.start r'.start))

def pieces (r : ByteRange) : List ByteRange :=
  if r.start < r.stop then [r] else []

def minus (r cut : ByteRange) : List ByteRange :=
  if cut.start < cut.stop then
    pieces ⟨r.start, min r.stop cut.start⟩ ++
      pieces ⟨max r.start cut.stop, r.stop⟩
  else pieces r

def cutOut (cut : ByteRange) (ranges : List ByteRange) : List ByteRange :=
  ranges.flatMap (fun r => r.minus cut)

theorem Disjoint.symm {r r' : ByteRange} (h : r.Disjoint r') :
    r'.Disjoint r := by
  unfold Disjoint at h ⊢
  rw [Nat.min_comm, Nat.max_comm]
  exact h

theorem minus_self (r : ByteRange) : r.minus r = [] := by
  unfold minus pieces
  by_cases h : r.start < r.stop
  · rw [if_pos h, if_neg (by dsimp only; lia), if_neg (by dsimp only; lia)]
    rfl
  · rw [if_neg h, if_neg h]

theorem minus_of_disjoint {r cut : ByteRange} (h : r.Disjoint cut) :
    r.minus cut = r.pieces := by
  unfold Disjoint at h
  unfold minus
  by_cases hcut : cut.start < cut.stop
  · rw [if_pos hcut]
    by_cases hr : r.start < r.stop
    · rcases Nat.lt_or_ge cut.start r.stop with hafter | hbefore
      · have hleft : pieces ⟨r.start, min r.stop cut.start⟩ = [] :=
          if_neg (by dsimp only; lia)
        rw [hleft, Nat.max_eq_left (by lia), List.nil_append]
      · have hright : pieces ⟨max r.start cut.stop, r.stop⟩ = [] :=
          if_neg (by dsimp only; lia)
        rw [Nat.min_eq_left hbefore, hright, List.append_nil]
    · unfold pieces
      rw [if_neg hr, if_neg (by dsimp only; lia), if_neg (by dsimp only; lia)]
      rfl
  · rw [if_neg hcut]

theorem mem_pieces {r piece : ByteRange} (h : piece ∈ r.pieces) :
    piece = r := by
  unfold pieces at h
  split at h
  · exact List.mem_singleton.mp h
  · cases h

theorem pieces_eq_nil {r : ByteRange} : r.pieces = [] <-> r.stop ≤ r.start := by
  unfold pieces
  by_cases h : r.start < r.stop
  · rw [if_pos h]
    constructor
    · intro hnil
      cases hnil
    · intro hle
      lia
  · rw [if_neg h]
    exact Iff.intro (fun _ => Nat.not_lt.mp h) (fun _ => rfl)

theorem cutOut_pieces_self (r : ByteRange) : cutOut r r.pieces = [] := by
  rw [cutOut, List.flatMap_eq_nil_iff]
  intro piece hpiece
  rw [mem_pieces hpiece]
  exact minus_self r

theorem cutOut_pieces_of_disjoint {r cut : ByteRange} (h : r.Disjoint cut) :
    cutOut cut r.pieces = r.pieces := by
  unfold cutOut pieces
  split
  · rename_i hlt
    rw [List.flatMap_singleton, minus_of_disjoint h, pieces, if_pos hlt]
  · rfl

theorem cutOut_append (cut : ByteRange) (first second : List ByteRange) :
    cutOut cut (first ++ second) = cutOut cut first ++ cutOut cut second :=
  List.flatMap_append

theorem cutOut_perm (cut : ByteRange) {first second : List ByteRange}
    (h : first.Perm second) : (cutOut cut first).Perm (cutOut cut second) :=
  h.flatMap_right _

end ByteRange
end Foundation
end LowLatency
