import LowLatency.Spsc.ViewGuarded

/-!
# Step by step simulation

A step of `push` or `pop` is answered by the same step of the queue machine, and
the drop of a handle by the drop of the handle.  All other steps are answered by
no step.
-/

namespace LowLatency
namespace Spsc

open Foundation

namespace ViewSystem

variable {W : Nat} {cap : Capacity W} {Client V T : Type} [DecidableEq Client]
variable {s s' : ViewSystem cap Client V T} {t : System cap T} {side : Side}

theorem contents_access (m : Threads Side (Place cap Client) (Place.Val V T))
    (side : Side) (j : Fin cap.size) (v : Slot T) :
    contents (m.access side (Place.slot j) v) =
      Function.update (contents m) j v := by
  have hst := m.stores_access side (Place.slot j) v
  funext k
  rcases eq_or_ne k j with rfl | hne
  · rw [Function.update_self, contents, Threads.content, hst.memory,
      ViewMemory.current_append_self]
  · have hplace : Place.slot k ≠ (Place.slot j : Place cap Client) := by
      intro heq
      cases heq
      exact hne rfl
    rw [Function.update_of_ne hne, contents, contents, Threads.content,
      hst.memory_of_ne hplace]
    rfl

theorem Shows.stores {m' : Threads Side (Place cap Client) (Place.Val V T)}
    {place : Place cap Client}
    {msg : Message (Place cap Client) (Place.Val V T place)} (ht : Shows s t)
    (hst : Threads.Stores s.threads m' side place msg)
    (hhead : Place.head ≠ place) (htail : Place.tail ≠ place)
    (hslots : forall j, Place.slot j ≠ place) :
    Shows { s with threads := m' } t :=
  ht.of_memory (hst.memory_of_ne hhead) (hst.memory_of_ne htail)
    (fun j => hst.memory_of_ne (hslots j))

omit [DecidableEq Client] in
theorem Shows.slots_eq (ht : Shows s t) (halive : s.disposal = DropPc.alive) :
    t.slots = contents s.threads ∧ s.destroyed = [] := by
  have hdropping := ht.dropping
  rw [halive] at hdropping
  exact hdropping

/-!
## Steps of the producer
-/

omit [DecidableEq Client] in
theorem pushCall_shows (ht : Shows s t) {item : T}
    (h : s.pushCall item = some s') :
    exists t', t.pushCall item = some t' ∧ Shows s' t' := by
  rcases pushCall_inv h with ⟨hhandle, hpc, rfl⟩
  have henabled : exists t', t.pushCall item = some t' := by
    simp [System.pushCall, ht.producerHandle, hhandle, ht.pushPc, hpc]
  rcases henabled with ⟨t', ht'⟩
  refine ⟨t', ht', ?_⟩
  rcases System.pushCall_inv ht' with ⟨_, _, rfl⟩
  have hall := ht.learns (s.threads.learns_handOver Side.producer)
  refine { hall with pushPc := ?_ }
  rw [ht.producer]

theorem pushLoadHead_shows (hg : Guarded s) (ht : Shows s t) {i : Nat}
    (h : s.pushLoadHead i = some s') :
    exists t', t.pushLoadHead i = some t' ∧ Shows s' t' := by
  rcases pushLoadHead_inv h with ⟨item, head, threads, hpc, hload, hcase⟩
  rcases Threads.loadAcquire_inv hload with ⟨msg, hmsg, hvalue, hl, _⟩
  have ht₁ := ht.touch Side.producer
  have hgrows := (s.threads.stores_access Side.producer
    (Place.accesses Side.producer) ()).grows.current Side.producer Place.head
  have hseen : t.headSeen ≤
      ((s.touch Side.producer).threads.view Side.producer).current
        Place.head := by
    rw [ht.headSeen]
    exact Nat.le_trans hg.coverage.headSeen_le hgrows
  have hload' : t.head.load? t.headSeen i = some head := by
    rw [ht₁.head, hvalue]
    exact StoreHistory.load?_map hmsg hseen
  have henabled : exists t', t.pushLoadHead i = some t' := by
    cases hfull : { t.producer with cachedHead := head }.looksFull cap with
    | true | false =>
        simp [System.pushLoadHead, ht.pushPc, hpc, hload', Producer.stillFull,
          hfull]
  rcases henabled with ⟨t', ht'⟩
  refine ⟨t', ht', ?_⟩
  have hall := ht₁.learns hl
  rcases System.pushLoadHead_inv ht' with ⟨item', head', hpc', hhead, hcase'⟩
  rw [hload'] at hhead
  rw [ht.pushPc, hpc] at hpc'
  cases hhead
  cases hpc'
  rw [ht.producer] at hcase'
  rcases hcase with ⟨hfull, rfl⟩ | ⟨hroom, rfl⟩
  · rcases hcase' with ⟨_, rfl⟩ | ⟨hroom, _⟩
    · refine { hall with
        producer := rfl
        pushPc := rfl
        headSeen := rfl
        pushResults := ?_ }
      rw [List.map_append, ← ht.pushResults]
      rfl
    · rw [hfull] at hroom
      cases hroom
  · rcases hcase' with ⟨hfull, _⟩ | ⟨_, rfl⟩
    · rw [hroom] at hfull
      cases hfull
    · exact { hall with
        producer := rfl
        pushPc := rfl
        headSeen := rfl }

theorem pushWriteSlot_shows (hg : Guarded s) (ht : Shows s t)
    (hd : System.Disposal t) (h : s.pushWriteSlot = some s') :
    exists t', t.pushWriteSlot = some t' ∧ Shows s' t' := by
  rcases pushWriteSlot_inv h with ⟨item, hpc, rfl⟩
  rcases producer_acts hg ht hd (by rw [hpc]; intro hidle; cases hidle) with
    ⟨halive, _⟩
  have henabled : exists t', t.pushWriteSlot = some t' := by
    simp [System.pushWriteSlot, ht.pushPc, hpc]
  rcases henabled with ⟨t', ht'⟩
  refine ⟨t', ht', ?_⟩
  rcases System.pushWriteSlot_inv ht' with ⟨item', hpc', rfl⟩
  rw [ht.pushPc, hpc] at hpc'
  cases hpc'
  have ht₁ := ht.touch Side.producer
  have hst := (s.touch Side.producer).threads.stores_access Side.producer
    (Place.slot (s.producer.slot cap)) (Slot.live item)
  refine { ht₁ with head := ?_, tail := ?_, pushPc := rfl, dropping := ?_ }
  · rw [hst.memory_of_ne (by intro heq; cases heq)]
    exact ht₁.head
  · rw [hst.memory_of_ne (by intro heq; cases heq)]
    exact ht₁.tail
  · rcases ht₁.slots_eq halive with ⟨hslots, hdestroyed⟩
    show Dropping _ s.destroyed _ s.disposal
    rw [halive, contents_access, ← hslots, ← ht.producer]
    exact ⟨rfl, hdestroyed⟩

theorem pushStoreTail_shows (hg : Guarded s) (ht : Shows s t)
    (hd : System.Disposal t) (h : s.pushStoreTail = some s') :
    exists t', t.pushStoreTail = some t' ∧ Shows s' t' := by
  rcases pushStoreTail_inv h with ⟨item, hpc, rfl⟩
  rcases producer_acts hg ht hd (by rw [hpc]; intro hidle; cases hidle) with
    ⟨halive, _⟩
  have henabled : exists t', t.pushStoreTail = some t' := by
    simp [System.pushStoreTail, ht.pushPc, hpc]
  rcases henabled with ⟨t', ht'⟩
  refine ⟨t', ht', ?_⟩
  rcases System.pushStoreTail_inv ht' with ⟨item', hpc', rfl⟩
  rw [ht.pushPc, hpc] at hpc'
  cases hpc'
  have ht₁ := ht.touch Side.producer
  have hst := (s.touch Side.producer).threads.stores_storeRelease Side.producer
    Place.tail s.producer.advance.cachedTail
  refine { ht₁ with
    head := ?_
    tail := ?_
    producer := ?_
    pushPc := rfl
    accepted := ?_
    pushResults := ?_
    dropping := ?_ }
  · rw [hst.memory_of_ne (by intro heq; cases heq)]
    exact ht₁.head
  · rw [hst.memory, ViewMemory.append_self, StoreHistory.map_store, ← ht₁.tail,
      ht.producer]
  · rw [ht.producer]
  · rw [ht.accepted]
  · rw [List.map_append, ← ht.pushResults]
    rfl
  · rcases ht₁.slots_eq halive with ⟨hslots, hdestroyed⟩
    show Dropping _ s.destroyed _ s.disposal
    rw [halive, contents_of_memory
      (fun j => hst.memory_of_ne (by intro heq; cases heq))]
    exact ⟨hslots, hdestroyed⟩

/-!
## Steps of the consumer
-/

omit [DecidableEq Client] in
theorem popCall_shows (ht : Shows s t) (h : s.popCall = some s') :
    exists t', t.popCall = some t' ∧ Shows s' t' := by
  rcases popCall_inv h with ⟨hhandle, hpc, rfl⟩
  have henabled : exists t', t.popCall = some t' := by
    simp [System.popCall, ht.consumerHandle, hhandle, ht.popPc, hpc]
  rcases henabled with ⟨t', ht'⟩
  refine ⟨t', ht', ?_⟩
  rcases System.popCall_inv ht' with ⟨_, _, rfl⟩
  have hall := ht.learns (s.threads.learns_handOver Side.consumer)
  refine { hall with popPc := ?_ }
  rw [ht.consumer]

theorem popLoadTail_shows (hg : Guarded s) (ht : Shows s t) {i : Nat}
    (h : s.popLoadTail i = some s') :
    exists t', t.popLoadTail i = some t' ∧ Shows s' t' := by
  rcases popLoadTail_inv h with ⟨tail, threads, hpc, hload, hcase⟩
  rcases Threads.loadAcquire_inv hload with ⟨msg, hmsg, hvalue, hl, _⟩
  have ht₁ := ht.touch Side.consumer
  have hgrows := (s.threads.stores_access Side.consumer
    (Place.accesses Side.consumer) ()).grows.current Side.consumer Place.tail
  have hseen : t.tailSeen ≤
      ((s.touch Side.consumer).threads.view Side.consumer).current
        Place.tail := by
    rw [ht.tailSeen]
    exact Nat.le_trans hg.coverage.tailSeen_le hgrows
  have hload' : t.tail.load? t.tailSeen i = some tail := by
    rw [ht₁.tail, hvalue]
    exact StoreHistory.load?_map hmsg hseen
  have henabled : exists t', t.popLoadTail i = some t' := by
    cases hempty : { t.consumer with cachedTail := tail }.looksEmpty with
    | true | false =>
        simp [System.popLoadTail, ht.popPc, hpc, hload', Consumer.stillEmpty,
          hempty]
  rcases henabled with ⟨t', ht'⟩
  refine ⟨t', ht', ?_⟩
  have hall := ht₁.learns hl
  rcases System.popLoadTail_inv ht' with ⟨tail', _, htail, hcase'⟩
  rw [hload'] at htail
  cases htail
  rw [ht.consumer] at hcase'
  rcases hcase with ⟨hempty, rfl⟩ | ⟨hitem, rfl⟩
  · rcases hcase' with ⟨_, rfl⟩ | ⟨hitem, _⟩
    · refine { hall with
        consumer := rfl
        popPc := rfl
        tailSeen := rfl
        popResults := ?_ }
      rw [List.map_append, ← ht.popResults]
      rfl
    · rw [hempty] at hitem
      cases hitem
  · rcases hcase' with ⟨hempty, _⟩ | ⟨_, rfl⟩
    · rw [hitem] at hempty
      cases hempty
    · exact { hall with
        consumer := rfl
        popPc := rfl
        tailSeen := rfl }

theorem popReadSlot_shows (hg : Guarded s) (ht : Shows s t)
    (hd : System.Disposal t) (h : s.popReadSlot = some s') :
    exists t', t.popReadSlot = some t' ∧ Shows s' t' := by
  rcases popReadSlot_inv h with ⟨hpc, rfl⟩
  rcases consumer_acts hg ht hd (by rw [hpc]; intro hidle; cases hidle) with
    ⟨halive, _⟩
  have henabled : exists t', t.popReadSlot = some t' := by
    simp [System.popReadSlot, ht.popPc, hpc]
  rcases henabled with ⟨t', ht'⟩
  refine ⟨t', ht', ?_⟩
  rcases System.popReadSlot_inv ht' with ⟨_, rfl⟩
  have ht₁ := ht.touch Side.consumer
  rcases ht₁.slots_eq halive with ⟨hslots, hdestroyed⟩
  have hcontent : t.slots (t.consumer.slot cap) =
      s.slotContent Side.consumer (s.consumer.slot cap) := by
    rw [hslots, ht.consumer]
    rfl
  have hst := (s.touch Side.consumer).threads.stores_access Side.consumer
    (Place.slot (s.consumer.slot cap))
    (s.slotContent Side.consumer (s.consumer.slot cap)).release
  refine { ht₁ with head := ?_, tail := ?_, popPc := ?_, dropping := ?_ }
  · rw [hst.memory_of_ne (by intro heq; cases heq)]
    exact ht₁.head
  · rw [hst.memory_of_ne (by intro heq; cases heq)]
    exact ht₁.tail
  · rw [hcontent]
  · show Dropping _ s.destroyed _ s.disposal
    rw [halive, contents_access, ← hslots, ← hcontent, ← ht.consumer]
    exact ⟨rfl, hdestroyed⟩

theorem popStoreHead_shows (hg : Guarded s) (ht : Shows s t)
    (hd : System.Disposal t) (h : s.popStoreHead = some s') :
    exists t', t.popStoreHead = some t' ∧ Shows s' t' := by
  rcases popStoreHead_inv h with ⟨item, hpc, rfl⟩
  rcases consumer_acts hg ht hd (by rw [hpc]; intro hidle; cases hidle) with
    ⟨halive, _⟩
  have henabled : exists t', t.popStoreHead = some t' := by
    simp [System.popStoreHead, ht.popPc, hpc]
  rcases henabled with ⟨t', ht'⟩
  refine ⟨t', ht', ?_⟩
  rcases System.popStoreHead_inv ht' with ⟨item', hpc', rfl⟩
  rw [ht.popPc, hpc] at hpc'
  cases hpc'
  have ht₁ := ht.touch Side.consumer
  have hst := (s.touch Side.consumer).threads.stores_storeRelease Side.consumer
    Place.head s.consumer.advance.cachedHead
  refine { ht₁ with
    head := ?_
    tail := ?_
    consumer := ?_
    popPc := rfl
    popped := ?_
    popResults := ?_
    dropping := ?_ }
  · rw [hst.memory, ViewMemory.append_self, StoreHistory.map_store, ← ht₁.head,
      ht.consumer]
  · rw [hst.memory_of_ne (by intro heq; cases heq)]
    exact ht₁.tail
  · rw [ht.consumer]
  · rw [ht.popped]
  · rw [List.map_append, ← ht.popResults]
    rfl
  · rcases ht₁.slots_eq halive with ⟨hslots, hdestroyed⟩
    show Dropping _ s.destroyed _ s.disposal
    rw [halive, contents_of_memory
      (fun j => hst.memory_of_ne (by intro heq; cases heq))]
    exact ⟨hslots, hdestroyed⟩

/-!
## Steps of `Drop`
-/

theorem dropHandle_shows (hg : Guarded s) (ht : Shows s t)
    (h : s.dropHandle side = some s') :
    exists a t', t.step a = some t' ∧ Shows s' t' := by
  rcases dropHandle_inv h with ⟨hhandle, hbetween, rfl⟩
  rcases acts_of_handle hg hhandle with ⟨halive, _⟩
  have ht₁ := ht.touch side
  rcases (s.touch side).threads.stores_updateRelease side Place.strong
    (fun n => n - 1) with ⟨msg, hst, _⟩
  have hall := ht₁.stores hst (by intro heq; cases heq) (by intro heq; cases heq)
    (by intro j heq; cases heq)
  have hdropping : forall u : System cap T, u.slots = t.slots ->
      Dropping (contents ((s.touch side).threads.updateRelease side Place.strong
          (fun n => n - 1))) s.destroyed u
        (if s.strongCount side = 1 then DropPc.fence side else s.disposal) := by
    intro u hu
    rcases hall.slots_eq halive with ⟨hslots, hdestroyed⟩
    split
    · exact ⟨hu.trans hslots, hdestroyed⟩
    · rw [halive]
      exact ⟨hu.trans hslots, hdestroyed⟩
  cases side with
  | producer =>
      have hidle := between_producer hbetween
      have henabled : exists t', t.dropProducer = some t' := by
        simp [System.dropProducer, ht.producerHandle, hhandle, ht.pushPc, hidle]
      rcases henabled with ⟨t', ht'⟩
      refine ⟨Action.dropProducer, t', ht', ?_⟩
      rcases System.dropProducer_inv ht' with ⟨_, _, ⟨_, rfl⟩ | ⟨_, rfl⟩⟩
      · exact { hall with
          producerHandle := rfl
          consumerHandle := ht.consumerHandle
          dropping := hdropping _ rfl }
      · exact { hall with
          producerHandle := rfl
          consumerHandle := ht.consumerHandle
          dropping := hdropping _ rfl }
  | consumer =>
      have hidle := between_consumer hbetween
      have henabled : exists t', t.dropConsumer = some t' := by
        simp [System.dropConsumer, ht.consumerHandle, hhandle, ht.popPc, hidle]
      rcases henabled with ⟨t', ht'⟩
      refine ⟨Action.dropConsumer, t', ht', ?_⟩
      rcases System.dropConsumer_inv ht' with ⟨_, _, ⟨_, rfl⟩ | ⟨_, rfl⟩⟩
      · exact { hall with
          producerHandle := ht.producerHandle
          consumerHandle := rfl
          dropping := hdropping _ rfl }
      · exact { hall with
          producerHandle := ht.producerHandle
          consumerHandle := rfl
          dropping := hdropping _ rfl }

omit [DecidableEq Client] in
theorem dropFence_shows (ht : Shows s t) (h : s.dropFence = some s') :
    Shows s' t := by
  rcases dropFence_inv h with ⟨owner, hdisposal, rfl⟩
  have hall := ht.learns (s.threads.learns_fenceAcquire owner)
  have hdropping := hall.dropping
  rw [hdisposal] at hdropping
  exact { hall with dropping := hdropping }

/-- Nobody stores to `head` any more, so that the relaxed load is precise. -/
theorem dropLoadHead_shows (hg : Guarded s) (ht : Shows s t) {i : Nat}
    (h : s.dropLoadHead i = some s') : Shows s' t := by
  rcases dropLoadHead_inv h with ⟨owner, head, threads, hdisposal, hload, rfl⟩
  have hrun : s.disposal.RunBy owner := by
    rw [hdisposal]
    rfl
  have hacts : s.disposal.Acts s.handle owner := Or.inr hrun
  have hg' := hg.touch hacts
  have ht₁ := ht.touch owner
  have hhead := Threads.loadRelaxed_newest hload
    (hg'.custody.covers hrun trivial)
  rcases Threads.loadRelaxed_inv hload with ⟨_, _, _, hl, _⟩
  have hall := ht₁.learns hl
  have hdropping := hall.dropping
  change Dropping (contents threads) s.destroyed t s.disposal at hdropping
  rw [hdisposal] at hdropping
  refine { hall with dropping := ⟨hdropping, ?_⟩ }
  rw [ht₁.head, StoreHistory.current_map, hhead]
  rfl

theorem dropLoadTail_shows (hg : Guarded s) (ht : Shows s t) {i : Nat}
    (h : s.dropLoadTail i = some s') : Shows s' t := by
  rcases dropLoadTail_inv h with
    ⟨owner, head, tail, threads, hdisposal, hload, rfl⟩
  have hrun : s.disposal.RunBy owner := by
    rw [hdisposal]
    rfl
  have hacts : s.disposal.Acts s.handle owner := Or.inr hrun
  have hg' := hg.touch hacts
  have ht₁ := ht.touch owner
  have htail := Threads.loadRelaxed_newest hload
    (hg'.custody.covers hrun trivial)
  rcases Threads.loadRelaxed_inv hload with ⟨_, _, _, hl, _⟩
  have hall := ht₁.learns hl
  have hdropping := hall.dropping
  change Dropping (contents threads) s.destroyed t s.disposal at hdropping
  rw [hdisposal] at hdropping
  rcases hdropping with ⟨⟨hslots, hdestroyed⟩, rfl⟩
  refine { hall with dropping := ?_ }
  have htail' : tail = t.tail.current := by
    rw [ht₁.tail, StoreHistory.current_map, htail]
    rfl
  show t.queue.drop = s.destroyed ++
    Queue.dropSlots cap t.head.current 0 (tail - t.head.current).toNat
      (contents threads)
  rw [hdestroyed, List.nil_append, htail', ← hslots]
  rfl

theorem dropSlot_shows (ht : Shows s t) (h : s.dropSlot = some s') :
    Shows s' t := by
  rcases dropSlot_inv h with ⟨owner, head, k, remaining, hdisposal, rfl⟩
  have ht₁ := ht.touch owner
  have hst := (s.touch owner).threads.stores_access owner
    (Place.slot (cap.slotIndex (head + BitVec.ofNat W k)))
    (s.slotContent owner (cap.slotIndex (head + BitVec.ofNat W k))).release
  have hdropping := ht₁.dropping
  change Dropping (contents (s.touch owner).threads) s.destroyed t s.disposal
    at hdropping
  rw [hdisposal] at hdropping
  refine { ht₁ with head := ?_, tail := ?_, dropping := ?_ }
  · rw [hst.memory_of_ne (by intro heq; cases heq)]
    exact ht₁.head
  · rw [hst.memory_of_ne (by intro heq; cases heq)]
    exact ht₁.tail
  · show t.queue.drop = _
    rw [hdropping, contents_access, Queue.dropSlots, List.append_assoc]
    rfl

theorem dropFree_shows (ht : Shows s t) (h : s.dropFree = some s') :
    Shows s' t := by
  rcases dropFree_inv h with ⟨owner, head, k, hdisposal, rfl⟩
  have hfirst := s.threads.stores_access owner
    (Place.accesses Side.producer) ()
  have hsecond := (s.threads.access owner
    (Place.accesses Side.producer) ()).stores_access owner
      (Place.accesses Side.consumer) ()
  have hall := ht.stores hfirst (by intro heq; cases heq)
    (by intro heq; cases heq) (by intro j heq; cases heq)
  have hall' := hall.stores hsecond (by intro heq; cases heq)
    (by intro heq; cases heq) (by intro j heq; cases heq)
  have hdropping := ht.dropping
  rw [hdisposal] at hdropping
  refine { hall' with dropping := ?_ }
  show t.queue.drop = s.destroyed
  rw [hdropping, Queue.dropSlots, List.append_nil]

/-!
## The program around the queue
-/

theorem clientStore_shows (ht : Shows s t) {x : Client} {v : V}
    (h : s.clientStore side x v = some s') : Shows s' t := by
  rcases clientStore_inv h with ⟨_, rfl⟩
  exact ht.stores (s.threads.stores_storeRelease side
    (Place.client x : Place cap Client) v) (by intro heq; cases heq)
    (by intro heq; cases heq) (by intro j heq; cases heq)

theorem clientLoad_shows (ht : Shows s t) {x : Client} {i : Nat} {v : V}
    (h : s.clientLoad side x i = some (v, s')) : Shows s' t := by
  rcases clientLoad_inv h with ⟨threads, _, hload, rfl⟩
  rcases Threads.loadAcquire_inv hload with ⟨_, _, _, hl, _⟩
  exact ht.learns hl

/-!
## All steps
-/

theorem step_shows (hg : Guarded s) (ht : Shows s t) (hd : System.Disposal t)
    {a : ViewAction Client V T} (h : s.step a = some s') :
    Shows s' t ∨ exists b t', t.step b = some t' ∧ Shows s' t' := by
  cases a with
  | pushCall item => exact Or.inr ⟨Action.pushCall item, pushCall_shows ht h⟩
  | pushLoadHead i =>
      exact Or.inr ⟨Action.pushLoadHead i, pushLoadHead_shows hg ht h⟩
  | pushWriteSlot =>
      exact Or.inr ⟨Action.pushWriteSlot, pushWriteSlot_shows hg ht hd h⟩
  | pushStoreTail =>
      exact Or.inr ⟨Action.pushStoreTail, pushStoreTail_shows hg ht hd h⟩
  | popCall => exact Or.inr ⟨Action.popCall, popCall_shows ht h⟩
  | popLoadTail i =>
      exact Or.inr ⟨Action.popLoadTail i, popLoadTail_shows hg ht h⟩
  | popReadSlot =>
      exact Or.inr ⟨Action.popReadSlot, popReadSlot_shows hg ht hd h⟩
  | popStoreHead =>
      exact Or.inr ⟨Action.popStoreHead, popStoreHead_shows hg ht hd h⟩
  | dropHandle side => exact Or.inr (dropHandle_shows hg ht h)
  | dropFence => exact Or.inl (dropFence_shows ht h)
  | dropLoadHead i => exact Or.inl (dropLoadHead_shows hg ht h)
  | dropLoadTail i => exact Or.inl (dropLoadTail_shows hg ht h)
  | dropSlot => exact Or.inl (dropSlot_shows ht h)
  | dropFree => exact Or.inl (dropFree_shows ht h)
  | clientStore side x v => exact Or.inl (clientStore_shows ht h)
  | clientLoad side x i =>
      rcases Option.map_eq_some_iff.mp h with ⟨⟨v, s''⟩, hload, hout⟩
      cases hout
      exact Or.inl (clientLoad_shows ht hload)

/-- Every execution under weak memory shows a run of the queue machine. -/
theorem simulated {clients : Client -> V}
    (hs : (viewMachine cap T clients).Reachable s) :
    exists t, (machine cap T).Reachable t ∧ Guarded s ∧ Shows s t := by
  apply hs.simulate_stutter (R := fun s t => Guarded s ∧ Shows s t)
    ⟨guarded_new clients, shows_new clients⟩
  intro s a s' t hreach hrel h
  rcases hrel with ⟨hg, ht⟩
  have hd := System.Disposal.reachable hreach
  have hg' := hg.step ht (System.Counters.reachable hreach) hd h
  rcases step_shows hg ht hd h with ht' | ⟨b, t', hb, ht'⟩
  · exact Or.inl ⟨hg', ht'⟩
  · exact Or.inr ⟨b, t', hb, hg', ht'⟩

end ViewSystem
end Spsc
end LowLatency
