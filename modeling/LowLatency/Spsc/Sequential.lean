import LowLatency.Spsc.Counters

/-!
# Whole calls

A sequential user runs whole calls of `push` and `pop`.  Each whole call is a
run of the interleaving model in which the other side takes no step, so the
counter invariant holds between whole calls.  It makes the cached counters
unobservable: a queue that reloads both counters on every call gives the same
answers.
-/

namespace LowLatency
namespace Spsc

open Foundation
open Foundation.Linearizability

variable {W : Nat} {cap : Capacity W} {T : Type _}

structure Ends {W : Nat} (cap : Capacity W) (T : Type _) where
  producer : Producer W
  consumer : Consumer W
  queue : Queue cap T

namespace Ends

def new (cap : Capacity W) (T : Type _) : Ends cap T where
  producer := Producer.new W
  consumer := Consumer.new W
  queue := Queue.new cap T

def exec (e : Ends cap T) : QueueOp T -> QueueRes T × Ends cap T
  | QueueOp.push item =>
      let (back, p, q) := e.producer.push e.queue item
      (QueueRes.pushed back, { e with producer := p, queue := q })
  | QueueOp.pop =>
      let (item, c, q) := e.consumer.pop e.queue
      (QueueRes.popped item, { e with consumer := c, queue := q })

def answers : Ends cap T -> List (QueueOp T) -> List (QueueRes T)
  | _, [] => []
  | e, op :: rest => (e.exec op).1 :: answers (e.exec op).2 rest

end Ends

/-!
## The queue without caches
-/

namespace Queue

def pushReloading (q : Queue cap T) (item : T) : Option T × Queue cap T :=
  if q.tail - q.head == cap.value then
    (some item, q)
  else
    (none, { q with
      slots := Function.update q.slots (cap.slotIndex q.tail) (Slot.live item)
      tail := q.tail + 1#W })

def popReloading (q : Queue cap T) : Option (Option T) × Queue cap T :=
  if q.head == q.tail then
    (none, q)
  else
    let slot := cap.slotIndex q.head
    (some (q.slots slot).read, { q with
      slots := Function.update q.slots slot (q.slots slot).release
      head := q.head + 1#W })

def execReloading (q : Queue cap T) : QueueOp T -> QueueRes T × Queue cap T
  | QueueOp.push item =>
      let (back, q) := q.pushReloading item
      (QueueRes.pushed back, q)
  | QueueOp.pop =>
      let (item, q) := q.popReloading
      (QueueRes.popped item, q)

def answersReloading : Queue cap T -> List (QueueOp T) -> List (QueueRes T)
  | _, [] => []
  | q, op :: rest =>
      (q.execReloading op).1 :: answersReloading (q.execReloading op).2 rest

end Queue

namespace System

variable {s s' : System cap T}

/-!
## Loads of the current value
-/

/-- Loads of the other side's counter return its current value. -/
def loadsCurrent (s : System cap T) : Action T -> Bool
  | Action.pushLoadHead i => i == s.head.lastIndex
  | Action.popLoadTail i => i == s.tail.lastIndex
  | _ => true

end System

def currentMachine {W : Nat} (cap : Capacity W) (T : Type _) :
    Machine (System cap T) (Action T) :=
  (machine cap T).restrict System.loadsCurrent

namespace System

variable {s s' : System cap T}

def ends (s : System cap T) : Ends cap T where
  producer := s.producer
  consumer := s.consumer
  queue := s.queue

structure Quiet (s : System cap T) : Prop where
  pushPc : s.pushPc = PushPc.idle
  popPc : s.popPc = PopPc.idle
  producerHandle : s.producerHandle = true
  consumerHandle : s.consumerHandle = true

theorem currentMachine_step {a : Action T} (h : s.step a = some s')
    (hcurrent : s.loadsCurrent a = true) :
    (currentMachine cap T).step s a = some s' := by
  show (if s.loadsCurrent a then s.step a else none) = some s'
  rw [if_pos hcurrent]
  exact h

theorem Counters.current_load_head (hc : Counters s) :
    s.head.load? s.headSeen s.head.lastIndex = some s.head.current := by
  refine StoreHistory.load?_eq_some.mpr ⟨?_, s.head.read?_lastIndex⟩
  rw [hc.headIndex]
  exact hc.headSeen_le

theorem Counters.current_load_tail (hc : Counters s) :
    s.tail.load? s.tailSeen s.tail.lastIndex = some s.tail.current := by
  refine StoreHistory.load?_eq_some.mpr ⟨?_, s.tail.read?_lastIndex⟩
  rw [hc.tailIndex]
  exact hc.tailSeen_le

theorem currentMachine_cons {a : Action T} {rest : List (Action T)}
    (h : s.step a = some s') (hcurrent : s.loadsCurrent a = true) :
    (currentMachine cap T).runFrom s (a :: rest) =
      (currentMachine cap T).runFrom s' rest :=
  Machine.runFrom_cons_of_step rest (currentMachine_step h hcurrent)

/-!
## A whole push
-/

theorem pushItem_run {item : T} (hpc : s.pushPc = PushPc.writeSlot item) :
    exists s', (currentMachine cap T).runFrom s
        [Action.pushWriteSlot, Action.pushStoreTail] = some s' ∧
      s.producer.pushItem s.queue item = (none, s'.producer, s'.queue) ∧
      s'.consumer = s.consumer ∧ s'.pushPc = PushPc.idle ∧
      s'.popPc = s.popPc ∧ s'.producerHandle = s.producerHandle ∧
      s'.consumerHandle = s.consumerHandle := by
  have hwrite : exists mid, s.pushWriteSlot = some mid := by
    simp [pushWriteSlot, hpc]
  rcases hwrite with ⟨mid, hwrite⟩
  rcases pushWriteSlot_inv hwrite with ⟨x, hx, hmid⟩
  rw [hpc] at hx
  cases hx
  have hstore : exists last, mid.pushStoreTail = some last := by
    simp [pushStoreTail, hmid]
  rcases hstore with ⟨last, hstore⟩
  rcases pushStoreTail_inv hstore with ⟨y, _, hlast⟩
  refine ⟨last, ?_, ?_⟩
  · rw [currentMachine_cons (a := Action.pushWriteSlot) hwrite rfl,
      currentMachine_cons (a := Action.pushStoreTail) hstore rfl]
    rfl
  · subst hlast
    subst hmid
    simp [Producer.pushItem, queue]

theorem pushReload_run (hc : Counters s) {item : T}
    (hpc : s.pushPc = PushPc.loadHead item) :
    exists actions s' back,
      (currentMachine cap T).runFrom s actions = some s' ∧
      (if (s.producer.stillFull cap s.head.current).1 then
          (some item, (s.producer.stillFull cap s.head.current).2, s.queue)
        else (s.producer.stillFull cap s.head.current).2.pushItem s.queue
          item) = (back, s'.producer, s'.queue) ∧
      s'.consumer = s.consumer ∧ s'.pushPc = PushPc.idle ∧
      s'.popPc = s.popPc ∧ s'.producerHandle = s.producerHandle ∧
      s'.consumerHandle = s.consumerHandle := by
  have hload := hc.current_load_head
  have hcheck : exists mid, s.pushLoadHead s.head.lastIndex = some mid := by
    unfold pushLoadHead
    rw [hpc, hload]
    cases hstill : (s.producer.stillFull cap s.head.current).1 <;>
      simp [hstill]
  rcases hcheck with ⟨mid, hcheck⟩
  have hcurrent :
      s.loadsCurrent (Action.pushLoadHead s.head.lastIndex) = true := by
    simp [loadsCurrent]
  rcases pushLoadHead_inv hcheck with ⟨x, head, hx, hhead, hcase⟩
  rw [hpc] at hx
  cases hx
  rw [hload] at hhead
  cases hhead
  rcases hcase with ⟨hstill, hmid⟩ | ⟨hstill, hmid⟩
  · refine ⟨[Action.pushLoadHead s.head.lastIndex], mid, some item, ?_, ?_, ?_⟩
    · exact currentMachine_cons (a := Action.pushLoadHead s.head.lastIndex)
        hcheck hcurrent
    · subst hmid
      rw [if_pos (show (s.producer.stillFull cap s.head.current).1 = true from
        hstill)]
      rfl
    · subst hmid
      exact ⟨rfl, rfl, rfl, rfl, rfl⟩
  · have hpc' : mid.pushPc = PushPc.writeSlot item := by
      rw [hmid]
    rcases pushItem_run hpc' with ⟨s', hrun, hpush, hframe⟩
    subst hmid
    refine ⟨Action.pushLoadHead s.head.lastIndex ::
      [Action.pushWriteSlot, Action.pushStoreTail], s', none, ?_, ?_, hframe⟩
    · rw [currentMachine_cons (a := Action.pushLoadHead s.head.lastIndex)
        hcheck hcurrent]
      exact hrun
    · rw [if_neg (show ¬(s.producer.stillFull cap s.head.current).1 = true from
        Bool.eq_false_iff.mp hstill)]
      exact hpush

theorem push_run (hc : Counters s) (hq : Quiet s) (item : T) :
    exists actions s' back,
      (currentMachine cap T).runFrom s actions = some s' ∧
      s.producer.push s.queue item = (back, s'.producer, s'.queue) ∧
      s'.consumer = s.consumer ∧ Quiet s' := by
  have hcall : exists mid, s.pushCall item = some mid := by
    simp [pushCall, hq.pushPc, hq.producerHandle]
  rcases hcall with ⟨mid, hcall⟩
  have hcounters := hc.pushCall hcall
  rcases pushCall_inv hcall with ⟨_, _, hmid⟩
  cases hfull : s.producer.looksFull cap with
  | false =>
      have hpc : mid.pushPc = PushPc.writeSlot item := by
        rw [hmid]
        simp [hfull]
      rcases pushItem_run hpc with
        ⟨s', hrun, hpush, hconsumer, hidle, hpop, hproducer, hhandle⟩
      subst hmid
      refine ⟨Action.pushCall item ::
        [Action.pushWriteSlot, Action.pushStoreTail], s', none, ?_, ?_,
        hconsumer, ⟨hidle, hpop.trans hq.popPc,
          hproducer.trans hq.producerHandle, hhandle.trans hq.consumerHandle⟩⟩
      · rw [currentMachine_cons (a := Action.pushCall item) hcall rfl]
        exact hrun
      · rw [Producer.push, hfull]
        exact hpush
  | true =>
      have hpc : mid.pushPc = PushPc.loadHead item := by
        rw [hmid]
        simp [hfull]
      rcases pushReload_run hcounters hpc with ⟨actions, s', back, hrun, hpush,
        hconsumer, hidle, hpop, hproducer, hhandle⟩
      subst hmid
      refine ⟨Action.pushCall item :: actions, s', back, ?_, ?_,
        hconsumer, ⟨hidle, hpop.trans hq.popPc,
          hproducer.trans hq.producerHandle, hhandle.trans hq.consumerHandle⟩⟩
      · rw [currentMachine_cons (a := Action.pushCall item) hcall rfl]
        exact hrun
      · rw [Producer.push, hfull]
        exact hpush

/-!
## A whole pop
-/

theorem popItem_run (hpc : s.popPc = PopPc.readSlot) :
    exists s' item, (currentMachine cap T).runFrom s
        [Action.popReadSlot, Action.popStoreHead] = some s' ∧
      s.consumer.popItem s.queue = (some item, s'.consumer, s'.queue) ∧
      s'.producer = s.producer ∧ s'.popPc = PopPc.idle ∧
      s'.pushPc = s.pushPc ∧ s'.producerHandle = s.producerHandle ∧
      s'.consumerHandle = s.consumerHandle := by
  have hread : exists mid, s.popReadSlot = some mid := by
    simp [popReadSlot, hpc]
  rcases hread with ⟨mid, hread⟩
  rcases popReadSlot_inv hread with ⟨_, hmid⟩
  have hstore : exists last, mid.popStoreHead = some last := by
    simp [popStoreHead, hmid]
  rcases hstore with ⟨last, hstore⟩
  rcases popStoreHead_inv hstore with ⟨y, _, hlast⟩
  refine ⟨last, (s.slots (s.consumer.slot cap)).read, ?_, ?_⟩
  · rw [currentMachine_cons (a := Action.popReadSlot) hread rfl,
      currentMachine_cons (a := Action.popStoreHead) hstore rfl]
    rfl
  · subst hlast
    subst hmid
    simp [Consumer.popItem, queue]

theorem popReload_run (hc : Counters s) (hpc : s.popPc = PopPc.loadTail) :
    exists actions s' item,
      (currentMachine cap T).runFrom s actions = some s' ∧
      (if (s.consumer.stillEmpty s.tail.current).1 then
          (none, (s.consumer.stillEmpty s.tail.current).2, s.queue)
        else (s.consumer.stillEmpty s.tail.current).2.popItem s.queue) =
          (item, s'.consumer, s'.queue) ∧
      s'.producer = s.producer ∧ s'.popPc = PopPc.idle ∧
      s'.pushPc = s.pushPc ∧ s'.producerHandle = s.producerHandle ∧
      s'.consumerHandle = s.consumerHandle := by
  have hload := hc.current_load_tail
  have hcheck : exists mid, s.popLoadTail s.tail.lastIndex = some mid := by
    unfold popLoadTail
    rw [hpc, hload]
    cases hstill : (s.consumer.stillEmpty s.tail.current).1 <;>
      simp [hstill]
  rcases hcheck with ⟨mid, hcheck⟩
  have hcurrent :
      s.loadsCurrent (Action.popLoadTail s.tail.lastIndex) = true := by
    simp [loadsCurrent]
  rcases popLoadTail_inv hcheck with ⟨tail, _, htail, hcase⟩
  rw [hload] at htail
  cases htail
  rcases hcase with ⟨hstill, hmid⟩ | ⟨hstill, hmid⟩
  · refine ⟨[Action.popLoadTail s.tail.lastIndex], mid, none, ?_, ?_, ?_⟩
    · exact currentMachine_cons (a := Action.popLoadTail s.tail.lastIndex)
        hcheck hcurrent
    · subst hmid
      rw [if_pos (show (s.consumer.stillEmpty s.tail.current).1 = true from
        hstill)]
      rfl
    · subst hmid
      exact ⟨rfl, rfl, rfl, rfl, rfl⟩
  · have hpc' : mid.popPc = PopPc.readSlot := by
      rw [hmid]
    rcases popItem_run hpc' with ⟨s', item, hrun, hpop, hframe⟩
    subst hmid
    refine ⟨Action.popLoadTail s.tail.lastIndex ::
      [Action.popReadSlot, Action.popStoreHead], s', some item, ?_, ?_, hframe⟩
    · rw [currentMachine_cons (a := Action.popLoadTail s.tail.lastIndex)
        hcheck hcurrent]
      exact hrun
    · rw [if_neg (show ¬(s.consumer.stillEmpty s.tail.current).1 = true from
        Bool.eq_false_iff.mp hstill)]
      exact hpop

theorem pop_run (hc : Counters s) (hq : Quiet s) :
    exists actions s' item,
      (currentMachine cap T).runFrom s actions = some s' ∧
      s.consumer.pop s.queue = (item, s'.consumer, s'.queue) ∧
      s'.producer = s.producer ∧ Quiet s' := by
  have hcall : exists mid, s.popCall = some mid := by
    simp [popCall, hq.popPc, hq.consumerHandle]
  rcases hcall with ⟨mid, hcall⟩
  have hcounters := hc.popCall hcall
  rcases popCall_inv hcall with ⟨_, _, hmid⟩
  cases hempty : s.consumer.looksEmpty with
  | false =>
      have hpc : mid.popPc = PopPc.readSlot := by
        rw [hmid]
        simp [hempty]
      rcases popItem_run hpc with
        ⟨s', item, hrun, hpop, hproducer, hidle, hpush, hhandle, hconsumer⟩
      subst hmid
      refine ⟨Action.popCall :: [Action.popReadSlot, Action.popStoreHead], s',
        some item, ?_, ?_, hproducer, ⟨hpush.trans hq.pushPc, hidle,
          hhandle.trans hq.producerHandle, hconsumer.trans hq.consumerHandle⟩⟩
      · rw [currentMachine_cons (a := Action.popCall) hcall rfl]
        exact hrun
      · rw [Consumer.pop, hempty]
        exact hpop
  | true =>
      have hpc : mid.popPc = PopPc.loadTail := by
        rw [hmid]
        simp [hempty]
      rcases popReload_run hcounters hpc with ⟨actions, s', item, hrun, hpop,
        hproducer, hidle, hpush, hhandle, hconsumer⟩
      subst hmid
      refine ⟨Action.popCall :: actions, s', item, ?_, ?_, hproducer,
        ⟨hpush.trans hq.pushPc, hidle, hhandle.trans hq.producerHandle,
          hconsumer.trans hq.consumerHandle⟩⟩
      · rw [currentMachine_cons (a := Action.popCall) hcall rfl]
        exact hrun
      · rw [Consumer.pop, hempty]
        exact hpop

/-!
## The caches are unobservable
-/

theorem push_eq_reloading (hc : Counters s) (item : T) :
    s.queue.pushReloading item =
      ((s.producer.push s.queue item).1,
        (s.producer.push s.queue item).2.2) := by
  have htail : s.queue.tail = s.producer.cachedTail := by
    rw [hc.producerTail]
    exact hc.tail_current
  have hreload : { s.producer with cachedHead := s.queue.head }.looksFull cap =
      (s.queue.tail - s.queue.head == cap.value) := by
    rw [htail]
    rfl
  cases hfull : s.producer.looksFull cap with
  | true =>
      simp only [Producer.push, hfull, Producer.stillFull, hreload, if_true,
        Queue.pushReloading]
      cases s.queue.tail - s.queue.head == cap.value <;>
        simp [Producer.pushItem, Producer.slot, Producer.advance, htail]
  | false =>
      have hroom := hc.room
      have hseen := hc.headSeen_le
      have hne : s.log.accepted.length ≠ s.headSeen + cap.size := by
        intro heq
        rw [hc.looksFull_cached.mpr heq] at hfull
        cases hfull
      have hnot : (s.queue.tail - s.queue.head == cap.value) = false := by
        rw [← hreload, Bool.eq_false_iff]
        intro htrue
        have heq := (hc.looksFull_iff hc.head_current hc.headSeen_le
          (Nat.le_refl _)).mp htrue
        lia
      rw [Queue.pushReloading, hnot]
      simp [Producer.push, hfull, Producer.pushItem, Producer.slot,
        Producer.advance, htail]

theorem pop_eq_reloading (hc : Counters s) :
    s.queue.popReloading =
      ((s.consumer.pop s.queue).1, (s.consumer.pop s.queue).2.2) := by
  have hhead : s.queue.head = s.consumer.cachedHead := by
    rw [hc.consumerHead]
    exact hc.head_current
  have hreload : { s.consumer with cachedTail := s.queue.tail }.looksEmpty =
      (s.queue.head == s.queue.tail) := by
    rw [hhead]
    rfl
  cases hempty : s.consumer.looksEmpty with
  | true =>
      simp only [Consumer.pop, hempty, Consumer.stillEmpty, hreload, if_true,
        Queue.popReloading]
      cases s.queue.head == s.queue.tail <;>
        simp [Consumer.popItem, Consumer.slot, Consumer.advance, hhead]
  | false =>
      have hpopped := hc.popped_le
      have htail := hc.tailSeen_le
      have hne : s.log.popped.length ≠ s.tailSeen := by
        intro heq
        rw [hc.looksEmpty_cached.mpr heq] at hempty
        cases hempty
      have hnot : (s.queue.head == s.queue.tail) = false := by
        rw [← hreload, Bool.eq_false_iff]
        intro htrue
        have heq := (hc.looksEmpty_iff hc.tail_current htail
          (Nat.le_refl _)).mp htrue
        lia
      rw [Queue.popReloading, hnot]
      simp [Consumer.pop, hempty, Consumer.popItem, Consumer.slot,
        Consumer.advance, hhead]

/-- A whole call is a run of the machine, and answers like the reloading queue. -/
theorem exec_run (hc : Counters s) (hq : Quiet s) (op : QueueOp T) :
    exists actions s',
      (currentMachine cap T).runFrom s actions = some s' ∧ Quiet s' ∧
      (s.ends.exec op).2 = s'.ends ∧
      s.queue.execReloading op = ((s.ends.exec op).1, s'.queue) := by
  cases op with
  | push item =>
      rcases push_run hc hq item with
        ⟨actions, s', back, hrun, hpush, hconsumer, hquiet⟩
      refine ⟨actions, s', hrun, hquiet, ?_, ?_⟩
      · simp only [Ends.exec, ends, hpush, hconsumer]
      · simp only [Queue.execReloading, push_eq_reloading hc item, Ends.exec,
          ends, hpush]
  | pop =>
      rcases pop_run hc hq with
        ⟨actions, s', item, hrun, hpop, hproducer, hquiet⟩
      refine ⟨actions, s', hrun, hquiet, ?_, ?_⟩
      · simp only [Ends.exec, ends, hpop, hproducer]
      · simp only [Queue.execReloading, pop_eq_reloading hc, Ends.exec, ends,
          hpop]

theorem answers_eq_reloading
    (hreach : (currentMachine cap T).Reachable s) (hq : Quiet s)
    (ops : List (QueueOp T)) :
    s.ends.answers ops = s.queue.answersReloading ops := by
  induction ops generalizing s with
  | nil => rfl
  | cons op rest ih =>
      have hc := Counters.reachable hreach.of_restrict
      rcases exec_run hc hq op with
        ⟨actions, s', hrun, hquiet, hends, hreload⟩
      rw [Ends.answers, Queue.answersReloading, hends, hreload,
        ih (hreach.runFrom hrun) hquiet]

end System

theorem sequential_answers (cap : Capacity W) (ops : List (QueueOp T)) :
    (Ends.new cap T).answers ops = (Queue.new cap T).answersReloading ops :=
  System.answers_eq_reloading (s := System.new cap T)
    (Machine.reachable_start _) ⟨rfl, rfl, rfl, rfl⟩ ops

end Spsc
end LowLatency
