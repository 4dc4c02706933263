import LowLatency.Spsc.Queue

/-!
# The pushing handle

`push` is split at its accesses to shared memory, so that the interleaving
model can run the same pieces one at a time.  `push` itself composes them with
no other party in between.
-/

namespace LowLatency
namespace Spsc

structure Producer (W : Nat) where
  cachedHead : BitVec W
  cachedTail : BitVec W
deriving DecidableEq, Repr

namespace Producer

variable {W : Nat} {cap : Capacity W} {T : Type _}

def new (W : Nat) : Producer W where
  cachedHead := 0#W
  cachedTail := 0#W

/-- The test `cached_tail.wrapping_sub(cached_head) == CAPACITY`. -/
def looksFull (cap : Capacity W) (p : Producer W) : Bool :=
  p.cachedTail - p.cachedHead == cap.value

theorem looksFull_iff {p : Producer W} {head tail : Nat}
    (hhead : p.cachedHead = BitVec.ofNat W head)
    (htail : p.cachedTail = BitVec.ofNat W tail)
    (hle : head ≤ tail) (hroom : tail ≤ head + cap.size) :
    p.looksFull cap = true <-> tail = head + cap.size := by
  have hsize := cap.size_lt
  rw [looksFull, beq_iff_eq, hhead, htail, Foundation.Words.ofNat_sub_ofNat hle,
    cap.value_eq_ofNat]
  constructor
  · intro h
    have heq := Foundation.Words.eq_of_ofNat_eq (by lia) (by lia) h
    lia
  · intro h
    rw [show tail - head = cap.size by lia]

/-- `still_full` once the load of `head` has returned the given value. -/
def stillFull (cap : Capacity W) (p : Producer W) (head : BitVec W) :
    Bool × Producer W :=
  let p := { p with cachedHead := head }
  (p.looksFull cap, p)

def slot (cap : Capacity W) (p : Producer W) : Fin cap.size :=
  cap.slotIndex p.cachedTail

/-- `cached_tail += 1` with wrapping arithmetic. -/
def advance (p : Producer W) : Producer W :=
  { p with cachedTail := p.cachedTail + 1#W }

/-- The part of `push` after the full-check: slot write and store of `tail`. -/
def pushItem (p : Producer W) (q : Queue cap T) (item : T) :
    Option T × Producer W × Queue cap T :=
  let slots := Function.update q.slots (p.slot cap) (Slot.live item)
  let p := p.advance
  (none, p, { q with slots := slots, tail := p.cachedTail })

def push (p : Producer W) (q : Queue cap T) (item : T) :
    Option T × Producer W × Queue cap T :=
  if p.looksFull cap then
    let (full, p) := p.stillFull cap q.head
    if full then (some item, p, q) else p.pushItem q item
  else
    p.pushItem q item

end Producer
end Spsc
end LowLatency
