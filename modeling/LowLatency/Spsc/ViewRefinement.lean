import LowLatency.Spsc.ViewCoverage
import LowLatency.Spsc.ViewCustody
import LowLatency.Spsc.Disposal

/-!
# The abstract queue under release and acquire

Each execution under weak memory shows an interleaving of the queue machine, in
which an access to a slot has a single outcome.  The steps of `Queue::drop` and of
the program around the queue leave the queue machine where it is: it has dropped
the queue with the last handle.
-/

namespace LowLatency
namespace Spsc

open Foundation

namespace ViewSystem

variable {W : Nat} {cap : Capacity W} {Client V T : Type}

/-!
## Invariant
-/

def written (s : ViewSystem cap Client V T) : Nat :=
  s.accepted.length + s.pushPc.stored.length

def taken (s : ViewSystem cap Client V T) : Nat :=
  s.popped.length + s.popPc.taken

structure Guarded (s : ViewSystem cap Client V T) : Prop where
  coverage : Coverage s.threads s.headSeen s.written s.tailSeen s.taken
  counted : s.disposal = DropPc.alive -> SlotCount s.threads s.written s.taken
  custody : Custody s.threads s.handle s.disposal
  usedFreed : s.usedFreed = false

/-!
## Refinement
-/

def contents (m : Threads Side (Place cap Client) (Place.Val V T)) :
    Fin cap.size -> Slot T :=
  fun j => m.content (Place.slot j)

def Dropping (slots : Fin cap.size -> Slot T) (destroyed : List (Slot T))
    (t : System cap T) : DropPc W -> Prop
  | DropPc.alive => t.slots = slots ∧ destroyed = []
  | DropPc.fence _ => t.slots = slots ∧ destroyed = []
  | DropPc.loadHead _ => t.slots = slots ∧ destroyed = []
  | DropPc.loadTail _ head =>
      (t.slots = slots ∧ destroyed = []) ∧ head = t.head.current
  | DropPc.destroy _ head k remaining =>
      t.queue.drop = destroyed ++ Queue.dropSlots cap head k remaining slots
  | DropPc.freed => t.queue.drop = destroyed

/-- `t` is what `s` shows when only the values are looked at. -/
structure Shows (s : ViewSystem cap Client V T) (t : System cap T) : Prop where
  head : t.head = (s.threads.memory Place.head).map Message.value
  tail : t.tail = (s.threads.memory Place.tail).map Message.value
  producer : t.producer = s.producer
  pushPc : t.pushPc = s.pushPc
  headSeen : t.headSeen = s.headSeen
  consumer : t.consumer = s.consumer
  popPc : t.popPc = s.popPc
  tailSeen : t.tailSeen = s.tailSeen
  producerHandle : t.producerHandle = s.handle Side.producer
  consumerHandle : t.consumerHandle = s.handle Side.consumer
  accepted : t.log.accepted = s.accepted
  popped : t.log.popped = s.popped
  pushResults : s.pushResults = t.log.pushReturns.map PushReturn.back
  popResults : s.popResults = t.log.popReturns.map PopReturn.item
  dropping : Dropping (contents s.threads) s.destroyed t s.disposal

theorem guarded_new (clients : Client -> V) :
    Guarded (ViewSystem.new cap T clients) where
  coverage := Coverage.start clients
  counted _ _ := by
    rw [written, taken]
    exact (congrArg₂ (· + ·) (cap.visits_zero _) (cap.visits_zero _)).symm
  custody := Custody.start clients
  usedFreed := rfl

theorem shows_new (clients : Client -> V) :
    Shows (ViewSystem.new cap T clients) (System.new cap T) where
  head := rfl
  tail := rfl
  producer := rfl
  pushPc := rfl
  headSeen := rfl
  consumer := rfl
  popPc := rfl
  tailSeen := rfl
  producerHandle := rfl
  consumerHandle := rfl
  accepted := rfl
  popped := rfl
  pushResults := rfl
  popResults := rfl
  dropping := ⟨rfl, rfl⟩

/-!
## What the sides know of the queue machine
-/

variable {s s' : ViewSystem cap Client V T} {t : System cap T}

theorem Shows.written_eq (h : Shows s t) : t.written.length = s.written := by
  rw [System.written, List.length_append, h.accepted, h.pushPc, written]

theorem Shows.taken_eq (h : Shows s t) : t.taken = s.taken := by
  rw [System.taken, h.popped, h.popPc, taken]

theorem Shows.writeSlot_eq (h : Shows s t) (hc : System.Counters t) :
    s.producer.slot cap = cap.slotOf s.accepted.length := by
  rw [← h.producer, hc.producer_slot, h.accepted]

theorem Shows.readSlot_eq (h : Shows s t) (hc : System.Counters t) :
    s.consumer.slot cap = cap.slotOf s.popped.length := by
  rw [← h.consumer, hc.consumer_slot, h.popped]

theorem Shows.tailIndex (h : Shows s t) (hc : System.Counters t) :
    (s.threads.memory Place.tail).lastIndex = s.accepted.length := by
  rw [← h.accepted, ← hc.tailIndex, h.tail, StoreHistory.lastIndex_map]

theorem Shows.headIndex (h : Shows s t) (hc : System.Counters t) :
    (s.threads.memory Place.head).lastIndex = s.popped.length := by
  rw [← h.popped, ← hc.headIndex, h.head, StoreHistory.lastIndex_map]

theorem contents_of_memory
    {m m' : Threads Side (Place cap Client) (Place.Val V T)}
    (hslots : forall j, m'.memory (Place.slot j) = m.memory (Place.slot j)) :
    contents m' = contents m := by
  funext j
  rw [contents, contents, Threads.content, hslots]
  rfl

theorem Shows.of_memory
    {m' : Threads Side (Place cap Client) (Place.Val V T)} (h : Shows s t)
    (hhead : m'.memory Place.head = s.threads.memory Place.head)
    (htail : m'.memory Place.tail = s.threads.memory Place.tail)
    (hslots : forall j,
      m'.memory (Place.slot j) = s.threads.memory (Place.slot j)) :
    Shows { s with threads := m' } t := by
  refine { h with head := ?_, tail := ?_, dropping := ?_ }
  · rw [h.head, ← hhead]
  · rw [h.tail, ← htail]
  · show Dropping (contents m') s.destroyed t s.disposal
    rw [contents_of_memory hslots]
    exact h.dropping

theorem Shows.learns
    {m' : Threads Side (Place cap Client) (Place.Val V T)} {side : Side}
    (h : Shows s t) (hl : Threads.Learns s.threads m' side) :
    Shows { s with threads := m' } t :=
  h.of_memory (by rw [hl.memory]) (by rw [hl.memory])
    (fun j => by rw [hl.memory])

theorem Shows.touch [DecidableEq Client] (h : Shows s t) (side : Side) :
    Shows (s.touch side) t := by
  have hst := s.threads.stores_access side (Place.accesses side) ()
  have hall := h.of_memory
    (hst.memory_of_ne (by intro heq; cases heq))
    (hst.memory_of_ne (by intro heq; cases heq))
    (fun j => hst.memory_of_ne (by intro heq; cases heq))
  exact { hall with }

theorem acts_of_handle (hg : Guarded s) {side : Side}
    (hhandle : s.handle side = true) :
    s.disposal = DropPc.alive ∧ s.disposal.Acts s.handle side := by
  have halive : s.disposal = DropPc.alive := by
    apply hg.custody.alive.mpr
    cases side with
    | producer => exact Or.inl hhandle
    | consumer => exact Or.inr hhandle
  exact ⟨halive, Or.inl ⟨halive, hhandle⟩⟩

theorem producer_acts (hg : Guarded s) (h : Shows s t) (hd : System.Disposal t)
    (hpc : s.pushPc ≠ PushPc.idle) :
    s.disposal = DropPc.alive ∧ s.disposal.Acts s.handle Side.producer := by
  apply acts_of_handle hg
  rw [← h.producerHandle]
  apply hd.producer_alive
  rw [h.pushPc]
  exact hpc

theorem consumer_acts (hg : Guarded s) (h : Shows s t) (hd : System.Disposal t)
    (hpc : s.popPc ≠ PopPc.idle) :
    s.disposal = DropPc.alive ∧ s.disposal.Acts s.handle Side.consumer := by
  apply acts_of_handle hg
  rw [← h.consumerHandle]
  apply hd.consumer_alive
  rw [h.popPc]
  exact hpc

end ViewSystem
end Spsc
end LowLatency
