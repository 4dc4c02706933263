import LowLatency.Spsc.Queue

/-!
# The popping handle

As for the producer, `pop` is split at its accesses to shared memory.  A
popped item is reported as the bits read from the slot, so `some none` would
be the result of reading an uninitialised slot.
-/

namespace LowLatency
namespace Spsc

structure Consumer (W : Nat) where
  cachedHead : BitVec W
  cachedTail : BitVec W
deriving DecidableEq, Repr

namespace Consumer

variable {W : Nat} {cap : Capacity W} {T : Type _}

def new (W : Nat) : Consumer W where
  cachedHead := 0#W
  cachedTail := 0#W

/-- The test `cached_head == cached_tail`. -/
def looksEmpty (c : Consumer W) : Bool :=
  c.cachedHead == c.cachedTail

theorem looksEmpty_iff {c : Consumer W} {head tail : Nat}
    (hhead : c.cachedHead = BitVec.ofNat W head)
    (htail : c.cachedTail = BitVec.ofNat W tail)
    (hle : head ≤ tail) (hroom : tail < head + 2 ^ W) :
    c.looksEmpty = true <-> head = tail := by
  rw [looksEmpty, beq_iff_eq, hhead, htail]
  constructor
  · exact Foundation.Words.eq_of_ofNat_eq hle hroom
  · intro h
    rw [h]

/-- `still_empty` once the load of `tail` has returned the given value. -/
def stillEmpty (c : Consumer W) (tail : BitVec W) : Bool × Consumer W :=
  let c := { c with cachedTail := tail }
  (c.looksEmpty, c)

def slot (cap : Capacity W) (c : Consumer W) : Fin cap.size :=
  cap.slotIndex c.cachedHead

/-- `cached_head += 1` with wrapping arithmetic. -/
def advance (c : Consumer W) : Consumer W :=
  { c with cachedHead := c.cachedHead + 1#W }

/-- The part of `pop` after the empty-check: slot read and store of `head`. -/
def popItem (c : Consumer W) (q : Queue cap T) :
    Option (Option T) × Consumer W × Queue cap T :=
  let item := (q.slots (c.slot cap)).read
  let slots :=
    Function.update q.slots (c.slot cap) (q.slots (c.slot cap)).release
  let c := c.advance
  (some item, c, { q with slots := slots, head := c.cachedHead })

def pop (c : Consumer W) (q : Queue cap T) :
    Option (Option T) × Consumer W × Queue cap T :=
  if c.looksEmpty then
    let (empty, c) := c.stillEmpty q.tail
    if empty then (none, c, q) else c.popItem q
  else
    c.popItem q

end Consumer
end Spsc
end LowLatency
