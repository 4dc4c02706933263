import LowLatency.Spsc.System

/-!
# What each step does

One inversion lemma per action: the state in which the action is enabled and
the state it leads to.  The invariants are proved from these lemmas and never
unfold a step.
-/

namespace LowLatency
namespace Spsc

open Foundation
open Foundation.Linearizability

namespace System

variable {W : Nat} {cap : Capacity W} {T : Type _}
variable {s s' : System cap T}

theorem pushCall_inv {item : T} (h : s.pushCall item = some s') :
    s.producerHandle = true ∧ s.pushPc = PushPc.idle ∧
      s' = { s with
        pushPc :=
          if s.producer.looksFull cap then PushPc.loadHead item
          else PushPc.writeSlot item
        log := { s.log with
          pushStores := 0
          trace := s.log.trace ++
            [Event.call Side.producer (QueueOp.push item)] } } := by
  unfold pushCall at h
  split at h
  · rename_i hhandle
    split at h
    · rename_i hpc
      exact ⟨hhandle, hpc, (Option.some.inj h).symm⟩
    · cases h
  · cases h

theorem pushLoadHead_inv {i : Nat} (h : s.pushLoadHead i = some s') :
    exists item head,
      s.pushPc = PushPc.loadHead item ∧
      s.head.load? s.headSeen i = some head ∧
      (({ s.producer with cachedHead := head }.looksFull cap = true ∧
          s' = { s with
            producer := { s.producer with cachedHead := head }
            headSeen := i
            pushPc := PushPc.idle
            log := { s.log with
              pushReturns := s.log.pushReturns ++
                [⟨item, some item, s.log.pushStores⟩]
              trace := s.log.trace ++
                [Event.ret Side.producer
                  (QueueRes.pushed (some item))] } }) ∨
        ({ s.producer with cachedHead := head }.looksFull cap = false ∧
          s' = { s with
            producer := { s.producer with cachedHead := head }
            headSeen := i
            pushPc := PushPc.writeSlot item })) := by
  unfold pushLoadHead at h
  split at h
  · rename_i item head hpc hload
    refine ⟨item, head, hpc, hload, ?_⟩
    cases hfull : { s.producer with cachedHead := head }.looksFull cap with
    | true =>
        simp only [Producer.stillFull, hfull, if_true] at h
        exact Or.inl ⟨rfl, (Option.some.inj h).symm⟩
    | false =>
        simp only [Producer.stillFull, hfull] at h
        exact Or.inr ⟨rfl, (Option.some.inj h).symm⟩
  · cases h

theorem pushWriteSlot_inv (h : s.pushWriteSlot = some s') :
    exists item, s.pushPc = PushPc.writeSlot item ∧
      s' = { s with
        slots := Function.update s.slots (s.producer.slot cap) (Slot.live item)
        pushPc := PushPc.storeTail item
        log := { s.log with
          pushStores := s.log.pushStores + 1
          storeClock := s.log.storeClock + 1
          writtenAt := Function.update s.log.writtenAt (s.producer.slot cap)
            s.log.storeClock } } := by
  unfold pushWriteSlot at h
  split at h
  · rename_i item hpc
    exact ⟨item, hpc, (Option.some.inj h).symm⟩
  · cases h

theorem pushStoreTail_inv (h : s.pushStoreTail = some s') :
    exists item, s.pushPc = PushPc.storeTail item ∧
      s' = { s with
        producer := s.producer.advance
        tail := s.tail.store s.producer.advance.cachedTail
        pushPc := PushPc.idle
        log := { s.log with
          accepted := s.log.accepted ++ [item]
          pushStores := s.log.pushStores + 1
          storeClock := s.log.storeClock + 1
          tailStoredAt := s.log.tailStoredAt ++ [s.log.storeClock]
          pushReturns := s.log.pushReturns ++
            [⟨item, none, s.log.pushStores + 1⟩]
          trace := s.log.trace ++
            [Event.ret Side.producer (QueueRes.pushed none)] } } := by
  unfold pushStoreTail at h
  split at h
  · rename_i item hpc
    exact ⟨item, hpc, (Option.some.inj h).symm⟩
  · cases h

theorem popCall_inv (h : s.popCall = some s') :
    s.consumerHandle = true ∧ s.popPc = PopPc.idle ∧
      s' = { s with
        popPc :=
          if s.consumer.looksEmpty then PopPc.loadTail else PopPc.readSlot
        log := { s.log with
          popStores := 0
          trace := s.log.trace ++
            [Event.call Side.consumer QueueOp.pop] } } := by
  unfold popCall at h
  split at h
  · rename_i hhandle
    split at h
    · rename_i hpc
      exact ⟨hhandle, hpc, (Option.some.inj h).symm⟩
    · cases h
  · cases h

theorem popLoadTail_inv {i : Nat} (h : s.popLoadTail i = some s') :
    exists tail,
      s.popPc = PopPc.loadTail ∧
      s.tail.load? s.tailSeen i = some tail ∧
      (({ s.consumer with cachedTail := tail }.looksEmpty = true ∧
          s' = { s with
            consumer := { s.consumer with cachedTail := tail }
            tailSeen := i
            popPc := PopPc.idle
            log := { s.log with
              popReturns := s.log.popReturns ++ [⟨none, s.log.popStores⟩]
              trace := s.log.trace ++
                [Event.ret Side.consumer (QueueRes.popped none)] } }) ∨
        ({ s.consumer with cachedTail := tail }.looksEmpty = false ∧
          s' = { s with
            consumer := { s.consumer with cachedTail := tail }
            tailSeen := i
            popPc := PopPc.readSlot })) := by
  unfold popLoadTail at h
  split at h
  · rename_i tail hpc hload
    refine ⟨tail, hpc, hload, ?_⟩
    cases hempty : { s.consumer with cachedTail := tail }.looksEmpty with
    | true =>
        simp only [Consumer.stillEmpty, hempty, if_true] at h
        exact Or.inl ⟨rfl, (Option.some.inj h).symm⟩
    | false =>
        simp only [Consumer.stillEmpty, hempty] at h
        exact Or.inr ⟨rfl, (Option.some.inj h).symm⟩
  · cases h

theorem popReadSlot_inv (h : s.popReadSlot = some s') :
    s.popPc = PopPc.readSlot ∧
      s' = { s with
        slots := Function.update s.slots (s.consumer.slot cap)
          (s.slots (s.consumer.slot cap)).release
        popPc := PopPc.storeHead (s.slots (s.consumer.slot cap)).read
        log := { s.log with popStores := s.log.popStores + 1 } } := by
  unfold popReadSlot at h
  split at h
  · rename_i hpc
    exact ⟨hpc, (Option.some.inj h).symm⟩
  · cases h

theorem popStoreHead_inv (h : s.popStoreHead = some s') :
    exists item, s.popPc = PopPc.storeHead item ∧
      s' = { s with
        consumer := s.consumer.advance
        head := s.head.store s.consumer.advance.cachedHead
        popPc := PopPc.idle
        log := { s.log with
          popped := s.log.popped ++ [item]
          popStores := s.log.popStores + 1
          popReturns := s.log.popReturns ++
            [⟨some item, s.log.popStores + 1⟩]
          trace := s.log.trace ++
            [Event.ret Side.consumer (QueueRes.popped (some item))] } } := by
  unfold popStoreHead at h
  split at h
  · rename_i item hpc
    exact ⟨item, hpc, (Option.some.inj h).symm⟩
  · cases h

theorem dropProducer_inv (h : s.dropProducer = some s') :
    s.producerHandle = true ∧ s.pushPc = PushPc.idle ∧
      ((s.consumerHandle = true ∧ s' = { s with producerHandle := false }) ∨
        (s.consumerHandle = false ∧
          s' = { s with
            producerHandle := false
            log := { s.log with
              drops := s.log.drops ++ [s.queue.drop] } })) := by
  unfold dropProducer at h
  split at h
  · rename_i hhandle hpc
    refine ⟨hhandle, hpc, ?_⟩
    cases hother : s.consumerHandle with
    | true =>
        simp only [hother, if_true] at h
        exact Or.inl ⟨rfl, (Option.some.inj h).symm⟩
    | false =>
        simp only [hother, runDrop] at h
        exact Or.inr ⟨rfl, (Option.some.inj h).symm⟩
  · cases h

theorem dropConsumer_inv (h : s.dropConsumer = some s') :
    s.consumerHandle = true ∧ s.popPc = PopPc.idle ∧
      ((s.producerHandle = true ∧ s' = { s with consumerHandle := false }) ∨
        (s.producerHandle = false ∧
          s' = { s with
            consumerHandle := false
            log := { s.log with
              drops := s.log.drops ++ [s.queue.drop] } })) := by
  unfold dropConsumer at h
  split at h
  · rename_i hhandle hpc
    refine ⟨hhandle, hpc, ?_⟩
    cases hother : s.producerHandle with
    | true =>
        simp only [hother, if_true] at h
        exact Or.inl ⟨rfl, (Option.some.inj h).symm⟩
    | false =>
        simp only [hother, runDrop] at h
        exact Or.inr ⟨rfl, (Option.some.inj h).symm⟩
  · cases h

end System
end Spsc
end LowLatency
