import LowLatency.Capacity

/-!
# SPSC queue memory

The slot buffer holds `MaybeUninit` cells, so the code never records which of
them own an item.  The model keeps that record: `live` cells own their item,
`moved` cells still hold the bits of an item that `ptr::read` or
`assume_init_drop` has taken out of them.
-/

namespace LowLatency
namespace Spsc

/-- A `MaybeUninit` cell together with the ownership of its content. -/
inductive Slot (T : Type _) where
  | uninit
  | live (item : T)
  | moved (item : T)
deriving DecidableEq, Repr

namespace Slot

variable {T : Type _}

/-- The bits that `ptr::read` returns; `none` is uninitialised memory. -/
def read : Slot T -> Option T
  | uninit => none
  | live item => some item
  | moved item => some item

def release : Slot T -> Slot T
  | live item => moved item
  | slot => slot

@[simp] theorem read_release (slot : Slot T) : slot.release.read = slot.read := by
  cases slot <;> rfl

theorem release_ne_live (slot : Slot T) (item : T) : slot.release ≠ live item := by
  cases slot <;> simp [release]

end Slot

structure Queue {W : Nat} (cap : Capacity W) (T : Type _) where
  head : BitVec W
  tail : BitVec W
  slots : Fin cap.size -> Slot T

namespace Queue

variable {W : Nat} {cap : Capacity W} {T : Type _}

def new (cap : Capacity W) (T : Type _) : Queue cap T where
  head := 0#W
  tail := 0#W
  slots := fun _ => Slot.uninit

/--
The loop of `drop`: destroys the content of `remaining` slots, the first of
them at offset `k` from `head`.  It returns what was found in each slot.
-/
def dropSlots (cap : Capacity W) (head : BitVec W) :
    Nat -> Nat -> (Fin cap.size -> Slot T) -> List (Slot T)
  | _, 0, _ => []
  | k, remaining + 1, slots =>
      let i := head + BitVec.ofNat W k
      let slot := cap.slotIndex i
      slots slot ::
        dropSlots cap head (k + 1) remaining
          (Function.update slots slot (slots slot).release)

/-- `Drop for Queue`, returning the slots it destroyed in order. -/
def drop (q : Queue cap T) : List (Slot T) :=
  let count := q.tail - q.head
  dropSlots cap q.head 0 count.toNat q.slots

end Queue
end Spsc
end LowLatency
