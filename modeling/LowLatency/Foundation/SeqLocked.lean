import LowLatency.Foundation.NewestLoads

/-!
# Sequence-locked cells

A cell is a sequence location together with the locations of the words that it
guards.  One thread makes all stores of a cell, version by version: a relaxed
odd store of the sequence, a release fence, relaxed stores of the words, and a
release even store of the sequence.  A reader loads the sequence, the words and
the sequence again, with an acquire fence before the last load.

Version `u` has the store at index `u` of each word and the even store at index
`2 * u` of the sequence.
-/

namespace LowLatency
namespace Foundation

structure SeqLocked (Loc : Type _) (m : Nat) where
  seq : Loc
  word : Fin m -> Loc

namespace SeqLocked

variable {Loc : Type _} {Val : Loc -> Type _} {m : Nat}
variable {cell : SeqLocked Loc m} {mem : ViewMemory Loc Val}
variable {t : ThreadView Loc} {w : Fin m} {k u : Nat}

/-!
## What the stores carry
-/

def CarriesWords (cell : SeqLocked Loc m) (k : Nat) (view : View Loc) : Prop :=
  forall u, k = 2 * u -> forall w, u ≤ view (cell.word w)

def CarriesOdd (cell : SeqLocked Loc m) (u : Nat) (view : View Loc) : Prop :=
  2 * u ≤ view cell.seq + 1

theorem carriesWords_bottom (cell : SeqLocked Loc m) :
    cell.CarriesWords 0 (View.bottom Loc) := by
  intro u hu w
  rw [show u = 0 by lia]
  exact Nat.zero_le _

theorem carriesOdd_bottom (cell : SeqLocked Loc m) :
    cell.CarriesOdd 0 (View.bottom Loc) :=
  Nat.zero_le _

theorem CarriesOdd.mono {view view' : View Loc} (h : cell.CarriesOdd u view)
    (hle : view ≤ view') : cell.CarriesOdd u view' :=
  Nat.le_trans h (Nat.succ_le_succ (hle cell.seq))

theorem carriesWords_odd (view : View Loc) :
    cell.CarriesWords (2 * u + 1) view := by
  intro v hv
  lia

theorem carriesWords_of_upToDate (h : mem.UpToDate t)
    (hwords : forall w, (mem (cell.word w)).lastIndex = u) {view : View Loc}
    (hview : t.current ≤ view) : cell.CarriesWords (2 * u) view := by
  intro v hv w
  rw [show v = u by lia, ← hwords w]
  exact Nat.le_trans (h _) (hview _)

theorem carriesOdd_of_released (h : 2 * u + 1 ≤ t.released cell.seq)
    {view : View Loc} (hview : t.released ≤ view) :
    cell.CarriesOdd (u + 1) view := by
  have hseq := hview cell.seq
  rw [CarriesOdd]
  lia

/-!
## A reader of the cell
-/

/--
The word was loaded from the store at index `u`, of the version of `k` or of a
newer one, whose odd store is then in the given view.
-/
structure Copied (cell : SeqLocked Loc m) (k u : Nat) (view : View Loc) :
    Prop where
  le : k ≤ 2 * u
  carries : cell.CarriesOdd u view

theorem Copied.mono {view view' : View Loc} (h : cell.Copied k u view)
    (hle : view ≤ view') : cell.Copied k u view' :=
  ⟨h.le, h.carries.mono hle⟩

def Bound (cell : SeqLocked Loc m) (u : Nat) (view : View Loc) : Prop :=
  forall w, u ≤ view (cell.word w)

theorem Bound.mono {view view' : View Loc} (h : cell.Bound u view)
    (hle : view ≤ view') : cell.Bound u view' :=
  fun w => Nat.le_trans (h w) (hle _)

/--
When the last load returns the store that the first load returned, every copied
word is of the version of that store.
-/
theorem Copied.version_eq {view : View Loc} {a : Nat}
    (h : cell.Copied (2 * a) u view) (hlast : view cell.seq ≤ 2 * a) :
    u = a := by
  have hlow := h.le
  have hhigh := h.carries
  rw [CarriesOdd] at hhigh
  lia

variable [DecidableEq Loc]

theorem bound_of_loadAcquire {V : Type _} {msg : Message Loc V}
    (h : cell.CarriesWords (2 * u) msg.view) :
    cell.Bound u (t.loadAcquire cell.seq (2 * u) msg).current :=
  fun w => Nat.le_trans (h u rfl w) (t.view_le_loadAcquire _ _ msg _)

theorem Copied.of_load {a : Nat} (hbound : cell.Bound a t.current)
    {msg : Message Loc (Val (cell.word w))}
    (hload : mem.load? t.current (cell.word w) u = some msg)
    (hcarries : cell.CarriesOdd u msg.view) :
    cell.Copied (2 * a) u (t.loadRelaxed (cell.word w) u msg).acquired := by
  have hseen := (StoreHistory.load?_eq_some.mp hload).left
  have ha := hbound w
  exact ⟨by lia, hcarries.mono (t.view_le_loadRelaxed _ _ msg)⟩

end SeqLocked

end Foundation
end LowLatency
