import LowLatency.Spsc.Sequential
import LowLatency.Spsc.Returns

/-!
# Linearizability to a bounded queue

The abstract queue holds the accepted items that are not yet popped.  A
successful `push` takes effect at its store of `tail` and a refused one at its
load of `head`; a successful `pop` takes effect at its store of `head` and an
empty one at its load of `tail`.
-/

namespace LowLatency
namespace Spsc

open Foundation
open Foundation.Linearizability

def boundedQueue (capacity : Nat) (T : Type _) :
    SequentialObject (List T) (QueueOp T) (QueueRes T) where
  start := []
  apply
    | q, QueueOp.push item =>
        if q.length = capacity then (QueueRes.pushed (some item), q)
        else (QueueRes.pushed none, q ++ [item])
    | [], QueueOp.pop => (QueueRes.popped none, [])
    | item :: rest, QueueOp.pop => (QueueRes.popped (some (some item)), rest)

def Action.side {T : Type _} : Action T -> Side
  | Action.pushCall _ => Side.producer
  | Action.pushLoadHead _ => Side.producer
  | Action.pushWriteSlot => Side.producer
  | Action.pushStoreTail => Side.producer
  | Action.dropProducer => Side.producer
  | _ => Side.consumer

namespace System

variable {W : Nat} {cap : Capacity W} {T : Type _}
variable {s s' : System cap T}

def pushStatus : PushPc T -> Status (QueueOp T) (QueueRes T)
  | PushPc.idle => Status.idle
  | PushPc.loadHead item => Status.called (QueueOp.push item)
  | PushPc.writeSlot item => Status.called (QueueOp.push item)
  | PushPc.storeTail item => Status.called (QueueOp.push item)

def popStatus : PopPc T -> Status (QueueOp T) (QueueRes T)
  | PopPc.idle => Status.idle
  | _ => Status.called QueueOp.pop

def status (s : System cap T) : Side -> Status (QueueOp T) (QueueRes T)
  | Side.producer => pushStatus s.pushPc
  | Side.consumer => popStatus s.popPc

def abstract (s : System cap T) : List T :=
  s.log.accepted.drop s.log.popped.length

def Linearized (s : System cap T) : Prop :=
  Serves (boundedQueue cap.size T) s.log.trace s.abstract s.status

namespace Linearized

theorem new (cap : Capacity W) (T : Type _) : Linearized (System.new cap T) := by
  apply Serves.congr_status Serves.start
  intro side
  cases side <;> rfl

theorem frame (hl : Linearized s) (htrace : s'.log.trace = s.log.trace)
    (haccepted : s'.log.accepted = s.log.accepted)
    (hpopped : s'.log.popped = s.log.popped)
    (hpush : pushStatus s'.pushPc = pushStatus s.pushPc)
    (hpop : popStatus s'.popPc = popStatus s.popPc) : Linearized s' := by
  unfold Linearized abstract at *
  rw [htrace, haccepted, hpopped]
  apply hl.congr_status
  intro side
  cases side with
  | producer => exact hpush.symm
  | consumer => exact hpop.symm

theorem pushCall (hl : Linearized s) {item : T}
    (h : s.pushCall item = some s') : Linearized s' := by
  rcases pushCall_inv h with ⟨_, hpc, rfl⟩
  have hidle : s.status Side.producer = Status.idle := by
    simp [status, hpc, pushStatus]
  refine (Serves.call Side.producer (QueueOp.push item) hl hidle).congr_status ?_
  intro side
  cases side with
  | producer => cases s.producer.looksFull cap <;> simp [status, pushStatus]
  | consumer => simp [status]

theorem pushLoadHead (hl : Linearized s) (hc : Counters s) {i : Nat}
    (hi : i = s.head.lastIndex) (h : s.pushLoadHead i = some s') :
    Linearized s' := by
  rcases pushLoadHead_inv h with ⟨item, head, hpc, hload, hcase⟩
  rcases hc.headCounts.load hload with ⟨hseen, hlast, hhead⟩
  rw [hc.headIndex] at hlast
  rcases hcase with ⟨hfull, rfl⟩ | ⟨_, rfl⟩
  · have heq := (hc.looksFull_iff hhead hseen hlast).mp hfull
    have hlength : s.abstract.length = cap.size := by
      rw [hi, hc.headIndex] at heq
      rw [abstract, List.length_drop]
      lia
    have hcalled : s.status Side.producer =
        Status.called (QueueOp.push item) := by
      simp [status, hpc, pushStatus]
    have happly : (boundedQueue cap.size T).apply s.abstract
        (QueueOp.push item) = (QueueRes.pushed (some item), s.abstract) := by
      simp [boundedQueue, hlength]
    refine (Serves.effect_ret hl hcalled happly).congr_status ?_
    intro side
    cases side <;> simp [status, pushStatus]
  · exact hl.frame rfl rfl rfl (by rw [hpc]; rfl) rfl

theorem pushStoreTail (hl : Linearized s) (hc : Counters s)
    (h : s.pushStoreTail = some s') : Linearized s' := by
  rcases pushStoreTail_inv h with ⟨item, hpc, rfl⟩
  have hpush := hc.pushRoom (by rw [hpc]; rfl)
  have hseen := hc.headSeen_le
  have hle := hc.popped_le_accepted
  have hlength : s.abstract.length ≠ cap.size := by
    rw [abstract, List.length_drop]
    lia
  have hcalled : s.status Side.producer =
      Status.called (QueueOp.push item) := by
    simp [status, hpc, pushStatus]
  have happly : (boundedQueue cap.size T).apply s.abstract
      (QueueOp.push item) = (QueueRes.pushed none, s.abstract ++ [item]) := by
    simp [boundedQueue, hlength]
  have hserves := Serves.effect_ret hl hcalled happly
  have habstract : s.abstract ++ [item] =
      (s.log.accepted ++ [item]).drop s.log.popped.length := by
    rw [List.drop_append_of_le_length hle]
    rfl
  rw [habstract] at hserves
  apply hserves.congr_status
  intro side
  cases side <;> simp [status, pushStatus]

theorem popCall (hl : Linearized s) (h : s.popCall = some s') :
    Linearized s' := by
  rcases popCall_inv h with ⟨_, hpc, rfl⟩
  have hidle : s.status Side.consumer = Status.idle := by
    simp [status, hpc, popStatus]
  refine (Serves.call Side.consumer QueueOp.pop hl hidle).congr_status ?_
  intro side
  cases side with
  | producer => simp [status]
  | consumer => cases s.consumer.looksEmpty <;> simp [status, popStatus]

theorem popLoadTail (hl : Linearized s) (hc : Counters s) {i : Nat}
    (hi : i = s.tail.lastIndex) (h : s.popLoadTail i = some s') :
    Linearized s' := by
  rcases popLoadTail_inv h with ⟨tail, hpc, hload, hcase⟩
  rcases hc.tailCounts.load hload with ⟨hseen, hlast, htail⟩
  rw [hc.tailIndex] at hlast
  rcases hcase with ⟨hempty, rfl⟩ | ⟨_, rfl⟩
  · have heq := (hc.looksEmpty_iff htail hseen hlast).mp hempty
    rw [hi, hc.tailIndex] at heq
    have hnil : s.abstract = [] := by
      rw [abstract, heq, List.drop_length]
    have hcalled : s.status Side.consumer = Status.called QueueOp.pop := by
      simp [status, hpc, popStatus]
    have happly : (boundedQueue cap.size T).apply s.abstract QueueOp.pop =
        (QueueRes.popped none, s.abstract) := by
      rw [hnil]
      rfl
    refine (Serves.effect_ret hl hcalled happly).congr_status ?_
    intro side
    cases side <;> simp [status, popStatus]
  · exact hl.frame rfl rfl rfl rfl (by rw [hpc]; rfl)

theorem popStoreHead (hl : Linearized s) (hc : Counters s) (hs : Slots s)
    (h : s.popStoreHead = some s') : Linearized s' := by
  rcases popStoreHead_inv h with ⟨item, hpc, rfl⟩
  have hpop := hc.popItem (by rw [hpc]; rfl)
  have htail := hc.tailSeen_le
  have hlt : s.log.popped.length < s.log.accepted.length := by lia
  have hheld := hs.held item hpc
  rw [List.getElem?_eq_getElem hlt] at hheld
  have hcalled : s.status Side.consumer = Status.called QueueOp.pop := by
    simp [status, hpc, popStatus]
  have happly : (boundedQueue cap.size T).apply s.abstract QueueOp.pop =
      (QueueRes.popped (some item),
        s.log.accepted.drop (s.log.popped.length + 1)) := by
    rw [abstract, List.drop_eq_getElem_cons hlt, ← hheld]
    rfl
  have hserves := Serves.effect_ret hl hcalled happly
  have hlength : (s.log.popped ++ [item]).length =
      s.log.popped.length + 1 := by simp
  rw [← hlength] at hserves
  apply hserves.congr_status
  intro side
  cases side <;> simp [status, popStatus]

theorem step (hl : Linearized s) (hc : Counters s) (hs : Slots s)
    {a : Action T} (hcurrent : s.loadsCurrent a = true)
    (h : s.step a = some s') : Linearized s' := by
  cases a with
  | pushCall item => exact hl.pushCall h
  | pushLoadHead i => exact hl.pushLoadHead hc (beq_iff_eq.mp hcurrent) h
  | pushWriteSlot =>
      rcases pushWriteSlot_inv h with ⟨item, hpc, rfl⟩
      exact hl.frame rfl rfl rfl (by rw [hpc]; rfl) rfl
  | pushStoreTail => exact hl.pushStoreTail hc h
  | popCall => exact hl.popCall h
  | popLoadTail i => exact hl.popLoadTail hc (beq_iff_eq.mp hcurrent) h
  | popReadSlot =>
      rcases popReadSlot_inv h with ⟨hpc, rfl⟩
      exact hl.frame rfl rfl rfl rfl (by rw [hpc]; rfl)
  | popStoreHead => exact hl.popStoreHead hc hs h
  | dropProducer =>
      rcases dropProducer_inv h with ⟨_, hpc, ⟨_, rfl⟩ | ⟨_, rfl⟩⟩
      · exact hl.frame rfl rfl rfl rfl rfl
      · exact hl.frame rfl rfl rfl rfl rfl
  | dropConsumer =>
      rcases dropConsumer_inv h with ⟨_, hpc, ⟨_, rfl⟩ | ⟨_, rfl⟩⟩
      · exact hl.frame rfl rfl rfl rfl rfl
      · exact hl.frame rfl rfl rfl rfl rfl

theorem reachable (hs : (currentMachine cap T).Reachable s) :
    Linearized s := by
  apply hs.invariant_of_reachable (Linearized.new cap T)
  intro s a s' hreach hl h
  have hbase := hreach.of_restrict
  rcases Machine.restrict_step h with ⟨hcurrent, hstep⟩
  exact hl.step (Counters.reachable hbase) (Slots.reachable hbase) hcurrent
    hstep

end Linearized

/-!
## What a call stores
-/

theorem producer_step_frame {a : Action T} (h : s.step a = some s')
    (hside : a.side = Side.producer)
    (hstores : s'.log.pushStores ≤ s.log.pushStores) :
    s'.tail = s.tail ∧ s'.slots = s.slots := by
  cases a with
  | pushCall item =>
      rcases pushCall_inv h with ⟨_, _, rfl⟩
      exact ⟨rfl, rfl⟩
  | pushLoadHead i =>
      rcases pushLoadHead_inv h with ⟨item, head, _, _, ⟨_, rfl⟩ | ⟨_, rfl⟩⟩
      · exact ⟨rfl, rfl⟩
      · exact ⟨rfl, rfl⟩
  | pushWriteSlot =>
      rcases pushWriteSlot_inv h with ⟨item, _, rfl⟩
      exact absurd hstores (Nat.not_succ_le_self _)
  | pushStoreTail =>
      rcases pushStoreTail_inv h with ⟨item, _, rfl⟩
      exact absurd hstores (Nat.not_succ_le_self _)
  | dropProducer =>
      rcases dropProducer_inv h with ⟨_, _, ⟨_, rfl⟩ | ⟨_, rfl⟩⟩
      · exact ⟨rfl, rfl⟩
      · exact ⟨rfl, rfl⟩
  | popCall => cases hside
  | popLoadTail i => cases hside
  | popReadSlot => cases hside
  | popStoreHead => cases hside
  | dropConsumer => cases hside

theorem consumer_step_frame {a : Action T} (h : s.step a = some s')
    (hside : a.side = Side.consumer)
    (hstores : s'.log.popStores ≤ s.log.popStores) :
    s'.head = s.head ∧ s'.slots = s.slots := by
  cases a with
  | popCall =>
      rcases popCall_inv h with ⟨_, _, rfl⟩
      exact ⟨rfl, rfl⟩
  | popLoadTail i =>
      rcases popLoadTail_inv h with ⟨tail, _, _, ⟨_, rfl⟩ | ⟨_, rfl⟩⟩
      · exact ⟨rfl, rfl⟩
      · exact ⟨rfl, rfl⟩
  | popReadSlot =>
      rcases popReadSlot_inv h with ⟨_, rfl⟩
      exact absurd hstores (Nat.not_succ_le_self _)
  | popStoreHead =>
      rcases popStoreHead_inv h with ⟨item, _, rfl⟩
      exact absurd hstores (Nat.not_succ_le_self _)
  | dropConsumer =>
      rcases dropConsumer_inv h with ⟨_, _, ⟨_, rfl⟩ | ⟨_, rfl⟩⟩
      · exact ⟨rfl, rfl⟩
      · exact ⟨rfl, rfl⟩
  | pushCall item => cases hside
  | pushLoadHead i => cases hside
  | pushWriteSlot => cases hside
  | pushStoreTail => cases hside
  | dropProducer => cases hside

/--
Without stale loads every run is a run of the bounded queue of capacity
`CAPACITY`.  A refused `push` returns its own item and an empty `pop` nothing,
both without a store; a step that counts no store changes neither the side's
counter nor a slot.  Whole calls answer like a queue without caches.
-/
theorem linearizable_to_boundedQueue (hreach : (currentMachine cap T).Reachable s) :
    Linearizable (boundedQueue cap.size T) s.log.trace ∧
    Serves (boundedQueue cap.size T) s.log.trace s.abstract s.status ∧
    (forall r, r ∈ s.log.pushReturns -> r.Faithful) ∧
    (forall r, r ∈ s.log.popReturns -> r.Faithful) ∧
    (forall a s', s.step a = some s' -> a.side = Side.producer ->
      s'.log.pushStores ≤ s.log.pushStores ->
      s'.tail = s.tail ∧ s'.slots = s.slots) ∧
    (forall a s', s.step a = some s' -> a.side = Side.consumer ->
      s'.log.popStores ≤ s.log.popStores ->
      s'.head = s.head ∧ s'.slots = s.slots) ∧
    (forall ops : List (QueueOp T),
      (Ends.new cap T).answers ops = (Queue.new cap T).answersReloading ops) := by
  have hlinearized := Linearized.reachable hreach
  have hreturns := Returns.reachable hreach.of_restrict
  refine ⟨hlinearized.linearizable, hlinearized, hreturns.pushFaithful,
    hreturns.popFaithful, ?_, ?_, sequential_answers cap⟩
  · intro a s' h hside hstores
    exact producer_step_frame h hside hstores
  · intro a s' h hside hstores
    exact consumer_step_frame h hside hstores

/-- A refused `push` overlapping a `pop` that has not stored `head` yet. -/
theorem linearizable_to_boundedQueue_overlapping :
    exists s, (currentMachine (⟨1#1, 0, rfl⟩ : Capacity 1) Nat).run
        [Action.pushCall 5, Action.pushWriteSlot, Action.pushStoreTail,
          Action.popCall, Action.popLoadTail 1, Action.popReadSlot,
          Action.pushCall 6, Action.pushLoadHead 0, Action.popStoreHead] =
        some s ∧
      s.log.trace.length = 6 ∧
      Linearizable (boundedQueue 1 Nat) s.log.trace := by
  apply Machine.exists_run_of_map (fun s => s.log.trace.length) 6
    (by decide +kernel)
  intro s hrun hshown
  exact ⟨hshown, (linearizable_to_boundedQueue ⟨_, hrun⟩).left⟩

end System
end Spsc
end LowLatency
