import LowLatency.Capacity
import LowLatency.Payload

/-!
# SPMC queue memory and whole publishes

Each slot of the ring carries a payload and a sequence number.
-/

namespace LowLatency
namespace Spmc

structure Slot (W m : Nat) (Word : Type _) where
  seq : BitVec W
  data : Payload m Word

structure Queue {W : Nat} (cap : Capacity W) (m : Nat) (Word : Type _) where
  writeCursor : BitVec W
  slots : Fin cap.size -> Slot W m Word

namespace Queue

variable {W : Nat} {cap : Capacity W} {m : Nat} {Word : Type _}

/-- The queue that `new` builds: every slot has `seq` zero and a zeroed payload. -/
def new (cap : Capacity W) (m : Nat) (Word : Type _) [Zero Word] :
    Queue cap m Word where
  writeCursor := 0#W
  slots := fun _ => ⟨0#W, fun _ => 0⟩

/--
The loop of `new` over the slots that the allocator returned; `none` is memory
that holds no `Slot` yet.
-/
def initSlots [Zero Word] (slots : Fin cap.size -> Option (Slot W m Word)) :
    Fin cap.size -> Option (Slot W m Word) :=
  (List.finRange cap.size).foldl
    (fun slots ix => Function.update slots ix (some ⟨0#W, fun _ => 0⟩)) slots

theorem initSlots_eq_new [Zero Word]
    (slots : Fin cap.size -> Option (Slot W m Word)) :
    initSlots slots = fun ix => some ((new cap m Word).slots ix) := by
  have hloop := foldl_update_eq_overwrite
    (fun ix => some ((new cap m Word).slots ix)) slots (List.finRange cap.size)
  rw [overwrite_finRange] at hloop
  exact hloop

def storeSeq (q : Queue cap m Word) (slot : Fin cap.size) (seq : BitVec W) :
    Queue cap m Word :=
  { q with
    slots := Function.update q.slots slot { q.slots slot with seq := seq } }

def writeData (q : Queue cap m Word) (slot : Fin cap.size)
    (value : Payload m Word) : Queue cap m Word :=
  { q with
    slots := Function.update q.slots slot { q.slots slot with data := value } }

/-- One word of the payload copy of `write_volatile`. -/
def writeWord (q : Queue cap m Word) (slot : Fin cap.size) (i : Fin m)
    (word : Word) : Queue cap m Word :=
  q.writeData slot (Function.update (q.slots slot).data i word)

/-- `publish` with no other party in between. -/
def publish (q : Queue cap m Word) (value : Payload m Word) :
    Queue cap m Word :=
  let wPos := q.writeCursor
  let seqNo := wPos * 2#W
  let slot := cap.slotIndex wPos
  let q := q.storeSeq slot (seqNo + 1#W)
  let q := q.writeData slot value
  let q := q.storeSeq slot (seqNo + 2#W)
  { q with writeCursor := wPos + 1#W }

@[simp] theorem storeSeq_slots_self (q : Queue cap m Word)
    (slot : Fin cap.size) (seq : BitVec W) :
    (q.storeSeq slot seq).slots slot = ⟨seq, (q.slots slot).data⟩ :=
  Function.update_self slot _ q.slots

theorem storeSeq_slots_of_ne (q : Queue cap m Word) {slot other : Fin cap.size}
    (seq : BitVec W) (h : other ≠ slot) :
    (q.storeSeq slot seq).slots other = q.slots other :=
  Function.update_of_ne h _ q.slots

@[simp] theorem writeData_slots_self (q : Queue cap m Word)
    (slot : Fin cap.size) (value : Payload m Word) :
    (q.writeData slot value).slots slot = ⟨(q.slots slot).seq, value⟩ :=
  Function.update_self slot _ q.slots

theorem writeData_slots_of_ne (q : Queue cap m Word)
    {slot other : Fin cap.size} (value : Payload m Word) (h : other ≠ slot) :
    (q.writeData slot value).slots other = q.slots other :=
  Function.update_of_ne h _ q.slots

end Queue
end Spmc
end LowLatency
