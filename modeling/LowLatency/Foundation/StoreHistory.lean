import Mathlib.Logic.Function.Basic

/-!
# Store histories

An atomic location is described by the values stored to it, in the order in
which they were stored.  A load picks the index of the store it reads from, so
a stale load is a load at an index that is not the last one.
-/

namespace LowLatency
namespace Foundation

/-- The initial value of a location and the values stored to it, oldest first. -/
structure StoreHistory (Val : Type _) where
  initial : Val
  stores : List Val

namespace StoreHistory

variable {Val : Type _}

/-- Index of the newest store; the initial value has index `0`. -/
def lastIndex (h : StoreHistory Val) : Nat :=
  h.stores.length

def read? (h : StoreHistory Val) (i : Nat) : Option Val :=
  (h.initial :: h.stores)[i]?

def current (h : StoreHistory Val) : Val :=
  h.stores.getLastD h.initial

def store (h : StoreHistory Val) (v : Val) : StoreHistory Val :=
  { h with stores := h.stores ++ [v] }

def load? (h : StoreHistory Val) (seen i : Nat) : Option Val :=
  if seen ≤ i then h.read? i else none

@[simp] theorem lastIndex_store (h : StoreHistory Val) (v : Val) :
    (h.store v).lastIndex = h.lastIndex + 1 := by
  simp [store, lastIndex]

@[simp] theorem current_store (h : StoreHistory Val) (v : Val) :
    (h.store v).current = v := by
  simp [store, current]

theorem read?_store_of_le {h : StoreHistory Val} {v : Val} {i : Nat}
    (hi : i ≤ h.lastIndex) : (h.store v).read? i = h.read? i := by
  have hlt : i < (h.initial :: h.stores).length := Nat.lt_succ_of_le hi
  simp only [read?, store, ← List.cons_append]
  exact List.getElem?_append_left hlt

theorem read?_store_last (h : StoreHistory Val) (v : Val) :
    (h.store v).read? (h.lastIndex + 1) = some v := by
  simp [read?, store, lastIndex]

theorem read?_lastIndex (h : StoreHistory Val) :
    h.read? h.lastIndex = some h.current := by
  cases h with
  | mk initial stores =>
      rcases List.eq_nil_or_concat stores with rfl | ⟨front, last, rfl⟩
      · rfl
      · simp [read?, lastIndex, current]

theorem load?_eq_some {h : StoreHistory Val} {seen i : Nat} {v : Val} :
    h.load? seen i = some v <-> seen ≤ i ∧ h.read? i = some v := by
  unfold load?
  by_cases hle : seen ≤ i
  · rw [if_pos hle]
    exact Iff.intro (fun hv => ⟨hle, hv⟩) And.right
  · rw [if_neg hle]
    exact Iff.intro (fun hv => by cases hv) (fun hv => absurd hv.left hle)

theorem read?_le {h : StoreHistory Val} {i : Nat} {v : Val}
    (hread : h.read? i = some v) : i ≤ h.lastIndex := by
  rcases List.getElem?_eq_some_iff.mp hread with ⟨hlt, _⟩
  exact Nat.le_of_lt_succ hlt

/-!
## Properties of all stores
-/

def Each (h : StoreHistory Val) (P : Nat -> Val -> Prop) : Prop :=
  forall i v, h.read? i = some v -> P i v

theorem each_initial {P : Nat -> Val -> Prop} {v : Val} (hv : P 0 v) :
    Each ⟨v, []⟩ P := by
  intro i v' hread
  have hzero : i = 0 := Nat.le_zero.mp (read?_le hread)
  subst hzero
  rw [← Option.some.inj hread]
  exact hv

theorem Each.store {h : StoreHistory Val} {P : Nat -> Val -> Prop} {v : Val}
    (hh : h.Each P) (hv : P (h.lastIndex + 1) v) : (h.store v).Each P := by
  intro i v' hread
  have hle := read?_le hread
  rw [lastIndex_store] at hle
  rcases Nat.lt_or_eq_of_le hle with hlt | rfl
  · rw [read?_store_of_le (Nat.le_of_lt_succ hlt)] at hread
    exact hh i v' hread
  · rw [read?_store_last] at hread
    rw [← Option.some.inj hread]
    exact hv

theorem Each.mono {h : StoreHistory Val} {P Q : Nat -> Val -> Prop}
    (hh : h.Each P) (himp : forall i v, P i v -> Q i v) : h.Each Q :=
  fun i v hread => himp i v (hh i v hread)

theorem Each.load {h : StoreHistory Val} {P : Nat -> Val -> Prop}
    (hh : h.Each P) {seen i : Nat} {v : Val}
    (hload : h.load? seen i = some v) :
    seen ≤ i ∧ i ≤ h.lastIndex ∧ P i v := by
  rcases load?_eq_some.mp hload with ⟨hseen, hread⟩
  exact ⟨hseen, read?_le hread, hh i v hread⟩

/-!
## Shown values
-/

def map {Shown : Type _} (f : Val -> Shown) (h : StoreHistory Val) :
    StoreHistory Shown where
  initial := f h.initial
  stores := h.stores.map f

section Map

variable {Shown : Type _} (f : Val -> Shown) (h : StoreHistory Val)

theorem map_store (v : Val) : (h.store v).map f = (h.map f).store (f v) := by
  simp [map, store]

theorem lastIndex_map : (h.map f).lastIndex = h.lastIndex := by
  simp [map, lastIndex]

theorem read?_map (i : Nat) : (h.map f).read? i = (h.read? i).map f := by
  change ((h.initial :: h.stores).map f)[i]? = _
  rw [List.getElem?_map]
  rfl

theorem current_map : (h.map f).current = f h.current := by
  have hlast := (h.map f).read?_lastIndex
  rw [read?_map, lastIndex_map, read?_lastIndex] at hlast
  exact (Option.some.inj hlast).symm

theorem load?_map {f : Val -> Shown} {h : StoreHistory Val} {seen seen' i : Nat}
    {v : Val} (hload : h.load? seen i = some v) (hseen : seen' ≤ seen) :
    (h.map f).load? seen' i = some (f v) := by
  rcases load?_eq_some.mp hload with ⟨hle, hread⟩
  refine load?_eq_some.mpr ⟨Nat.le_trans hseen hle, ?_⟩
  rw [read?_map, hread]
  rfl

end Map

/-!
## Counting locations

A location counts when its index-`i` value is a fixed function of `i`, as for a
counter that each store advances by one.
-/

def Counts (h : StoreHistory Val) (f : Nat -> Val) : Prop :=
  forall i, i ≤ h.lastIndex -> h.read? i = some (f i)

theorem counts_empty (f : Nat -> Val) : Counts ⟨f 0, []⟩ f := by
  intro i hi
  have hzero : i = 0 := Nat.le_zero.mp hi
  subst hzero
  rfl

theorem Counts.store {h : StoreHistory Val} {f : Nat -> Val}
    (hc : h.Counts f) : (h.store (f (h.lastIndex + 1))).Counts f := by
  intro i hi
  rw [lastIndex_store] at hi
  rcases Nat.lt_or_eq_of_le hi with hlt | heq
  · rw [read?_store_of_le (Nat.le_of_lt_succ hlt)]
    exact hc i (Nat.le_of_lt_succ hlt)
  · rw [heq, read?_store_last]

theorem Counts.current {h : StoreHistory Val} {f : Nat -> Val}
    (hc : h.Counts f) : h.current = f h.lastIndex := by
  have hlast := hc h.lastIndex (Nat.le_refl _)
  rw [read?_lastIndex] at hlast
  exact Option.some.inj hlast

theorem Counts.load {h : StoreHistory Val} {f : Nat -> Val}
    (hc : h.Counts f) {seen i : Nat} {v : Val}
    (hload : h.load? seen i = some v) :
    seen ≤ i ∧ i ≤ h.lastIndex ∧ v = f i := by
  rcases load?_eq_some.mp hload with ⟨hseen, hread⟩
  have hle := read?_le hread
  rw [hc i hle] at hread
  exact ⟨hseen, hle, (Option.some.inj hread).symm⟩

end StoreHistory
end Foundation
end LowLatency
