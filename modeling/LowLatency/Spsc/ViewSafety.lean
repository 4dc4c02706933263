import LowLatency.Spsc.ViewSimulation

/-!
# What the orderings of the code are enough for

No access to the queue is a data race or comes after the release of its memory,
the results of the calls are those of the bounded queue, and what a side has
been told of the other side's calls counts in its own.
-/

namespace LowLatency
namespace Spsc

open Foundation

namespace ViewSystem

variable {W : Nat} {cap : Capacity W} {Client V T : Type} [DecidableEq Client]
variable {clients : Client -> V} {s s' : ViewSystem cap Client V T}

/-!
## Data races and the lifetime of the memory
-/

/--
In every execution no slot is accessed by a side that is not bound to see all
earlier accesses to it, `Queue::drop` and the release of the memory included,
and nothing is accessed after the release.
-/
theorem no_race_nor_use_after_free
    (hs : (viewMachine cap T clients).Reachable s) :
    s.threads.racy = false ∧ s.usedFreed = false := by
  rcases simulated hs with ⟨_, _, hg, _⟩
  exact ⟨hg.custody.racy, hg.usedFreed⟩

/-- One slot: the consumer goes first, and the producer drops the second item. -/
theorem no_race_nor_use_after_free_at_drop :
    exists s : ViewSystem (⟨1#1, 0, rfl⟩ : Capacity 1) Unit Bool Nat,
      (viewMachine (⟨1#1, 0, rfl⟩ : Capacity 1) Nat
        (fun _ : Unit => false)).run
        [ViewAction.pushCall 5, ViewAction.pushWriteSlot,
          ViewAction.pushStoreTail, ViewAction.popCall,
          ViewAction.popLoadTail 1, ViewAction.popReadSlot,
          ViewAction.popStoreHead, ViewAction.dropHandle Side.consumer,
          ViewAction.pushCall 6, ViewAction.pushLoadHead 1,
          ViewAction.pushWriteSlot, ViewAction.pushStoreTail,
          ViewAction.dropHandle Side.producer, ViewAction.dropFence,
          ViewAction.dropLoadHead 1, ViewAction.dropLoadTail 2,
          ViewAction.dropSlot, ViewAction.dropFree] = some s ∧
      s.disposal = DropPc.freed ∧ s.destroyed = [Slot.live 6] ∧
      s.threads.racy = false ∧ s.usedFreed = false := by
  apply Machine.exists_run_of_map (fun s => (s.disposal, s.destroyed))
    (DropPc.freed, [Slot.live 6]) (by decide +kernel)
  intro s hrun hshown
  rcases Prod.mk.inj hshown with ⟨hdisposal, hdestroyed⟩
  exact ⟨hdisposal, hdestroyed, no_race_nor_use_after_free ⟨_, hrun⟩⟩

/-!
## The bounded queue
-/

omit [DecidableEq Client] in
theorem destroyed_of_freed {t : System cap T}
    (hreach : (machine cap T).Reachable t) (hg : Guarded s) (ht : Shows s t)
    (hfreed : s.disposal = DropPc.freed) :
    s.destroyed = (s.accepted.drop s.popped.length).map Slot.live := by
  have hc := System.Counters.reachable hreach
  have hd := System.Disposal.reachable hreach
  have hconsumer : t.consumerHandle = false := by
    rw [ht.consumerHandle, ← Bool.not_eq_true]
    intro hhandle
    have halive := hg.custody.alive.mpr (Or.inr hhandle)
    rw [hfreed] at halive
    cases halive
  have hdropping := ht.dropping
  rw [hfreed] at hdropping
  rw [← ht.accepted, ← ht.popped, ← System.queue_drop hc
    (System.Slots.reachable hreach) (hd.popIdle hconsumer)]
  exact hdropping.symm

/--
In every execution the popped items are a prefix of the accepted ones, which are
never more than `CAPACITY` ahead.  They are what the calls returned.  When the
memory has been released, each accepted item was popped or destroyed, once.
-/
theorem view_fifo (hs : (viewMachine cap T clients).Reachable s) :
    s.popped <+: s.accepted.map some ∧
      s.accepted.length ≤ s.popped.length + cap.size ∧
      s.popped = s.popResults.filterMap id ∧
      s.accepted.length = (s.pushResults.filter Option.isNone).length ∧
      (s.disposal = DropPc.freed ->
        exists rest : List T, s.destroyed = rest.map Slot.live ∧
          s.accepted.map some = s.popped ++ rest.map some) := by
  rcases simulated hs with ⟨t, hreach, hg, ht⟩
  have hc := System.Counters.reachable hreach
  have hslots := System.Slots.reachable hreach
  have hreturns := System.Returns.reachable hreach
  have hpopped := hslots.popped_eq
  rw [ht.popped, ht.accepted] at hpopped
  have hroom := hc.accepted_le
  rw [ht.popped, ht.accepted] at hroom
  refine ⟨?_, hroom, ?_, ?_, ?_⟩
  · rw [hpopped, List.map_take]
    exact List.take_prefix _ _
  · rw [ht.popResults, List.filterMap_map, ← ht.popped]
    exact hreturns.popped
  · rw [ht.pushResults, List.filter_map, List.length_map, ← ht.accepted,
      hreturns.accepted, List.length_map]
    rfl
  · intro hfreed
    refine ⟨s.accepted.drop s.popped.length,
      destroyed_of_freed hreach hg ht hfreed, ?_⟩
    calc s.accepted.map some
        = (s.accepted.take s.popped.length ++
            s.accepted.drop s.popped.length).map some := by
          rw [List.take_append_drop]
      _ = s.popped ++ (s.accepted.drop s.popped.length).map some := by
          rw [List.map_append, ← hpopped]

/-- The second item finds the slot full, and is pushed after the pop. -/
theorem view_fifo_after_refusal :
    exists s : ViewSystem (⟨1#1, 0, rfl⟩ : Capacity 1) Unit Bool Nat,
      (viewMachine (⟨1#1, 0, rfl⟩ : Capacity 1) Nat
        (fun _ : Unit => false)).run
        [ViewAction.pushCall 5, ViewAction.pushWriteSlot,
          ViewAction.pushStoreTail, ViewAction.pushCall 6,
          ViewAction.pushLoadHead 0, ViewAction.popCall,
          ViewAction.popLoadTail 1, ViewAction.popReadSlot,
          ViewAction.popStoreHead, ViewAction.pushCall 7,
          ViewAction.pushLoadHead 1, ViewAction.pushWriteSlot,
          ViewAction.pushStoreTail] = some s ∧
      s.pushResults = [none, some 6, none] ∧ s.popResults = [some (some 5)] ∧
      s.popped <+: s.accepted.map some ∧
      s.popped = s.popResults.filterMap id ∧
      s.accepted.length = (s.pushResults.filter Option.isNone).length := by
  apply Machine.exists_run_of_map (fun s => (s.pushResults, s.popResults))
    ([none, some 6, none], [some (some 5)]) (by decide +kernel)
  intro s hrun hshown
  rcases Prod.mk.inj hshown with ⟨hpush, hpop⟩
  rcases view_fifo ⟨_, hrun⟩ with ⟨hfifo, _, hpopped, haccepted, _⟩
  exact ⟨hpush, hpop, hfifo, hpopped, haccepted⟩

/-!
## What one side has heard of the other
-/

theorem grows_touch (s : ViewSystem cap Client V T) (side : Side) :
    Threads.Grows s.threads (s.touch side).threads :=
  (s.threads.stores_access side (Place.accesses side) ()).grows

def MayStore (a : ViewAction Client V T) (loc : Place cap Client) : Prop :=
  forall x, loc = Place.client x ->
    exists side v, a = ViewAction.clientStore side x v

omit [DecidableEq Client] in
theorem mayStore_of_ne {a : ViewAction Client V T} {loc : Place cap Client}
    (hloc : forall x, loc ≠ Place.client x) : MayStore a loc :=
  fun x heq => absurd heq (hloc x)

theorem storesOnly_access (a : ViewAction Client V T)
    (m : Threads Side (Place cap Client) (Place.Val V T)) (side : Side)
    (loc : Place cap Client) (v : Place.Val V T loc)
    (hloc : forall x, loc ≠ Place.client x) :
    Threads.StoresOnly (MayStore a) m (m.access side loc v) :=
  (m.stores_access side loc v).storesOnly (mayStore_of_ne hloc)

theorem storesOnly_touch (a : ViewAction Client V T)
    (s : ViewSystem cap Client V T) (side : Side) :
    Threads.StoresOnly (MayStore a) s.threads (s.touch side).threads :=
  storesOnly_access a s.threads side (Place.accesses side) ()
    (by intro x heq; cases heq)

theorem storesOnly_step {a : ViewAction Client V T} (h : s.step a = some s') :
    Threads.StoresOnly (MayStore a) s.threads s'.threads := by
  cases a with
  | pushCall item =>
      rcases pushCall_inv h with ⟨_, _, rfl⟩
      exact (s.threads.learns_handOver Side.producer).storesOnly
  | pushLoadHead i =>
      rcases pushLoadHead_inv h with ⟨_, _, _, _, hload, hcase⟩
      rcases Threads.loadAcquire_inv hload with ⟨_, _, _, hl, _⟩
      rcases hcase with ⟨_, rfl⟩ | ⟨_, rfl⟩
      · exact (storesOnly_touch _ s _).trans hl.storesOnly
      · exact (storesOnly_touch _ s _).trans hl.storesOnly
  | pushWriteSlot =>
      rcases pushWriteSlot_inv h with ⟨_, _, rfl⟩
      exact (storesOnly_touch _ s _).trans
        (storesOnly_access _ _ _ _ _ (by intro x heq; cases heq))
  | pushStoreTail =>
      rcases pushStoreTail_inv h with ⟨_, _, rfl⟩
      exact (storesOnly_touch _ s _).trans
        ((Threads.stores_storeRelease _ _ _ _).storesOnly
          (mayStore_of_ne (by intro x heq; cases heq)))
  | popCall =>
      rcases popCall_inv h with ⟨_, _, rfl⟩
      exact (s.threads.learns_handOver Side.consumer).storesOnly
  | popLoadTail i =>
      rcases popLoadTail_inv h with ⟨_, _, _, hload, hcase⟩
      rcases Threads.loadAcquire_inv hload with ⟨_, _, _, hl, _⟩
      rcases hcase with ⟨_, rfl⟩ | ⟨_, rfl⟩
      · exact (storesOnly_touch _ s _).trans hl.storesOnly
      · exact (storesOnly_touch _ s _).trans hl.storesOnly
  | popReadSlot =>
      rcases popReadSlot_inv h with ⟨_, rfl⟩
      exact (storesOnly_touch _ s _).trans
        (storesOnly_access _ _ _ _ _ (by intro x heq; cases heq))
  | popStoreHead =>
      rcases popStoreHead_inv h with ⟨_, _, rfl⟩
      exact (storesOnly_touch _ s _).trans
        ((Threads.stores_storeRelease _ _ _ _).storesOnly
          (mayStore_of_ne (by intro x heq; cases heq)))
  | dropHandle side =>
      rcases dropHandle_inv h with ⟨_, _, rfl⟩
      rcases (s.touch side).threads.stores_updateRelease side Place.strong
        (fun n => n - 1) with ⟨_, hst, _⟩
      exact (storesOnly_touch _ s _).trans
        (hst.storesOnly (mayStore_of_ne (by intro x heq; cases heq)))
  | dropFence =>
      rcases dropFence_inv h with ⟨owner, _, rfl⟩
      exact (s.threads.learns_fenceAcquire owner).storesOnly
  | dropLoadHead i =>
      rcases dropLoadHead_inv h with ⟨_, _, _, _, hload, rfl⟩
      rcases Threads.loadRelaxed_inv hload with ⟨_, _, _, hl, _⟩
      exact (storesOnly_touch _ s _).trans hl.storesOnly
  | dropLoadTail i =>
      rcases dropLoadTail_inv h with ⟨_, _, _, _, _, hload, rfl⟩
      rcases Threads.loadRelaxed_inv hload with ⟨_, _, _, hl, _⟩
      exact (storesOnly_touch _ s _).trans hl.storesOnly
  | dropSlot =>
      rcases dropSlot_inv h with ⟨_, _, _, _, _, rfl⟩
      exact (storesOnly_touch _ s _).trans
        (storesOnly_access _ _ _ _ _ (by intro x heq; cases heq))
  | dropFree =>
      rcases dropFree_inv h with ⟨owner, _, _, _, rfl⟩
      exact (storesOnly_access _ _ _ _ _ (by intro x heq; cases heq)).trans
        (storesOnly_access _ _ _ _ _ (by intro x heq; cases heq))
  | clientStore side x v =>
      rcases clientStore_inv h with ⟨_, rfl⟩
      refine (Threads.stores_storeRelease _ _ _ _).storesOnly ?_
      intro y heq
      cases heq
      exact ⟨side, v, rfl⟩
  | clientLoad side x i =>
      rcases Option.map_eq_some_iff.mp h with ⟨⟨v, s''⟩, hclient, hout⟩
      cases hout
      rcases clientLoad_inv hclient with ⟨_, _, hload, rfl⟩
      rcases Threads.loadAcquire_inv hload with ⟨_, _, _, hl, _⟩
      exact hl.storesOnly

theorem grows_step {a : ViewAction Client V T} (h : s.step a = some s') :
    Threads.Grows s.threads s'.threads :=
  (storesOnly_step h).grows

theorem client_memory_step {a : ViewAction Client V T} {x : Client}
    (h : s.step a = some s')
    (ha : forall side y v, a ≠ ViewAction.clientStore side y v) :
    s'.threads.memory (Place.client x) = s.threads.memory (Place.client x) := by
  apply (storesOnly_step h).elsewhere
  intro hmay
  rcases hmay x rfl with ⟨side, v, heq⟩
  exact ha side x v heq

theorem grows_runFrom {actions : List (ViewAction Client V T)}
    (h : (viewMachine cap T clients).runFrom s actions = some s') :
    Threads.Grows s.threads s'.threads := by
  apply Machine.runFrom_invariant
    (P := fun u => Threads.Grows s.threads u.threads)
    (fun _ _ _ hgrows hstep => hgrows.trans (grows_step hstep))
    (Threads.Grows.refl _) h

/-- What a side has stored for the other reaches it with what the side knew. -/
theorem told {side : Side} {x : Client} {v : V}
    {s s₁ s₂ s₃ s₄ : ViewSystem cap Client V T}
    {actions more : List (ViewAction Client V T)}
    (hstore : (viewMachine cap T clients).step s
      (ViewAction.clientStore side x v) = some s₁)
    (hrun : (viewMachine cap T clients).runFrom s₁ actions = some s₂)
    (hload : (viewMachine cap T clients).step s₂
      (ViewAction.clientLoad side.other x
        (s.threads.memory.next (Place.client x))) = some s₃)
    (hmore : (viewMachine cap T clients).runFrom s₃ more = some s₄) :
    (s.threads.view side).current ≤ (s₄.threads.view side.other).current := by
  rcases clientStore_inv hstore with ⟨_, rfl⟩
  have hst := s.threads.stores_storeRelease side
    (Place.client x : Place cap Client) v
  have hwritten := (s.threads.memory (Place.client x)).read?_store_last
    ⟨v, (s.threads.view side).current ⊔
      View.single (Place.client x) (s.threads.memory.next (Place.client x))⟩
  rw [← ViewMemory.append_self, ← hst.memory] at hwritten
  have hkept := (grows_runFrom hrun).kept _ _ _ hwritten
  rcases Option.map_eq_some_iff.mp hload with ⟨⟨v', s''⟩, hclient, hout⟩
  cases hout
  rcases clientLoad_inv hclient with ⟨threads, _, hacquire, rfl⟩
  rcases Threads.loadAcquire_inv hacquire with ⟨msg, hmsg, _, _, hview⟩
  have hread := (StoreHistory.load?_eq_some.mp hmsg).right
  rw [ViewMemory.next] at hread
  rw [hkept] at hread
  cases hread
  have hheard : (s.threads.view side).current ≤
      (threads.view side.other).current := by
    have hcarried := (s₂.threads.view side.other).view_le_loadAcquire
      (Place.client x) (s.threads.memory.next (Place.client x))
      ⟨v, (s.threads.view side).current ⊔
        View.single (Place.client x) (s.threads.memory.next (Place.client x))⟩
    rw [hview]
    exact le_trans le_sup_left hcarried
  exact le_trans hheard ((grows_runFrom hmore).current side.other)

/-- A `pop` that returns `None` has seen all stores of `tail` it is bound to. -/
theorem view_le_popped (hs : (viewMachine cap T clients).Reachable s) {i : Nat}
    (h : s.step (ViewAction.popLoadTail i) = some s')
    (hidle : s'.popPc = PopPc.idle) :
    (s.threads.view Side.consumer).current Place.tail ≤ s'.popped.length := by
  rcases simulated hs with ⟨t, hreach, hg, ht⟩
  have hc := System.Counters.reachable hreach
  rcases popLoadTail_inv h with ⟨tail, threads, hpc, hload, hcase⟩
  rcases hcase with ⟨hempty, rfl⟩ | ⟨_, rfl⟩
  · rcases Threads.loadAcquire_inv hload with ⟨msg, hmsg, rfl, _, _⟩
    have hle := (StoreHistory.load?_eq_some.mp hmsg).left
    have hgrows := (grows_touch s Side.consumer).current Side.consumer Place.tail
    have hseen := Nat.le_trans hg.coverage.tailSeen_le hgrows
    have ht₁ := ht.touch Side.consumer
    have hload' := StoreHistory.load?_map (f := Message.value) hmsg hseen
    rw [← ht₁.tail, ← ht.tailSeen] at hload'
    rcases hc.tailCounts.load hload' with ⟨hseen', hlast, hvalue⟩
    rw [hc.tailIndex] at hlast
    have hall := hc.looksEmpty_iff hvalue hseen' hlast
    rw [ht.consumer, ht.popped] at hall
    show _ ≤ s.popped.length
    rw [hall.mp hempty]
    exact Nat.le_trans hgrows hle
  · cases hidle

/-- A refused `push` has seen all stores of `head` that it is bound to. -/
theorem view_le_accepted (hs : (viewMachine cap T clients).Reachable s)
    {i : Nat} (h : s.step (ViewAction.pushLoadHead i) = some s')
    (hidle : s'.pushPc = PushPc.idle) :
    (s.threads.view Side.producer).current Place.head + cap.size ≤
      s'.accepted.length := by
  rcases simulated hs with ⟨t, hreach, hg, ht⟩
  have hc := System.Counters.reachable hreach
  rcases pushLoadHead_inv h with ⟨item, head, threads, hpc, hload, hcase⟩
  rcases hcase with ⟨hfull, rfl⟩ | ⟨_, rfl⟩
  · rcases Threads.loadAcquire_inv hload with ⟨msg, hmsg, rfl, _, _⟩
    have hle := (StoreHistory.load?_eq_some.mp hmsg).left
    have hgrows := (grows_touch s Side.producer).current Side.producer Place.head
    have hseen := Nat.le_trans hg.coverage.headSeen_le hgrows
    have ht₁ := ht.touch Side.producer
    have hload' := StoreHistory.load?_map (f := Message.value) hmsg hseen
    rw [← ht₁.head, ← ht.headSeen] at hload'
    rcases hc.headCounts.load hload' with ⟨hseen', hlast, hvalue⟩
    rw [hc.headIndex] at hlast
    have hall := hc.looksFull_iff hvalue hseen' hlast
    rw [ht.producer, ht.accepted] at hall
    show _ ≤ s.accepted.length
    rw [hall.mp hfull]
    exact Nat.add_le_add_right (Nat.le_trans hgrows hle) _
  · cases hidle

omit [DecidableEq Client] in
theorem counts_le_view {t : System cap T} (hg : Guarded s) (ht : Shows s t)
    (hc : System.Counters t) :
    s.accepted.length ≤ (s.threads.view Side.producer).current Place.tail ∧
      s.popped.length ≤ (s.threads.view Side.consumer).current Place.head := by
  rw [← ht.tailIndex hc, ← ht.headIndex hc]
  exact ⟨hg.coverage.ownTail, hg.coverage.ownHead⟩

/--
A side stores a flag with release ordering after some finished calls, and the
other side loads that store with acquire ordering.  From then on the consumer
gets `None` only once it has popped all items that were pushed before the flag,
and a push is refused only when `CAPACITY` items more than were popped before the
flag have been pushed.
-/
theorem told_calls_count {side : Side} {x : Client} {v : V}
    {s s₁ s₂ s₃ s₄ : ViewSystem cap Client V T}
    {actions more : List (ViewAction Client V T)}
    (hs : (viewMachine cap T clients).Reachable s)
    (hstore : (viewMachine cap T clients).step s
      (ViewAction.clientStore side x v) = some s₁)
    (hrun : (viewMachine cap T clients).runFrom s₁ actions = some s₂)
    (hload : (viewMachine cap T clients).step s₂
      (ViewAction.clientLoad side.other x
        (s.threads.memory.next (Place.client x))) = some s₃)
    (hmore : (viewMachine cap T clients).runFrom s₃ more = some s₄) :
    (side = Side.producer -> forall i s', s₄.step (ViewAction.popLoadTail i) =
        some s' -> s'.popPc = PopPc.idle ->
          s.accepted.length ≤ s'.popped.length) ∧
      (side = Side.consumer -> forall i s', s₄.step (ViewAction.pushLoadHead i) =
        some s' -> s'.pushPc = PushPc.idle ->
          s.popped.length + cap.size ≤ s'.accepted.length) := by
  have hheard := told hstore hrun hload hmore
  have hs₄ : (viewMachine cap T clients).Reachable s₄ :=
    (((hs.step hstore).runFrom hrun).step hload).runFrom hmore
  rcases simulated hs with ⟨t, hreach, hg, ht⟩
  rcases counts_le_view hg ht (System.Counters.reachable hreach) with
    ⟨haccepted, hpopped⟩
  constructor
  · intro hside i s' h hidle
    cases hside
    exact Nat.le_trans (Nat.le_trans haccepted (hheard Place.tail))
      (view_le_popped hs₄ h hidle)
  · intro hside i s' h hidle
    cases hside
    refine Nat.le_trans (Nat.add_le_add_right ?_ _)
      (view_le_accepted hs₄ h hidle)
    exact Nat.le_trans hpopped (hheard Place.head)

/-- The flag is set after one push; the consumer reads it, pops, and finds none. -/
theorem told_calls_count_after_push :
    exists s : ViewSystem (⟨1#1, 0, rfl⟩ : Capacity 1) Unit Bool Nat,
      (viewMachine (⟨1#1, 0, rfl⟩ : Capacity 1) Nat
        (fun _ : Unit => false)).run
        [ViewAction.pushCall 5, ViewAction.pushWriteSlot,
          ViewAction.pushStoreTail] = some s ∧
      exists s₁, (viewMachine (⟨1#1, 0, rfl⟩ : Capacity 1) Nat
        (fun _ : Unit => false)).step s
          (ViewAction.clientStore Side.producer () true) = some s₁ ∧
      exists s₃, (viewMachine (⟨1#1, 0, rfl⟩ : Capacity 1) Nat
        (fun _ : Unit => false)).step s₁
          (ViewAction.clientLoad Side.consumer ()
            (s.threads.memory.next (Place.client ()))) = some s₃ ∧
      exists s₄, (viewMachine (⟨1#1, 0, rfl⟩ : Capacity 1) Nat
        (fun _ : Unit => false)).runFrom s₃
          [ViewAction.popCall, ViewAction.popLoadTail 1, ViewAction.popReadSlot,
            ViewAction.popStoreHead, ViewAction.popCall] = some s₄ ∧
      exists s', s₄.step (ViewAction.popLoadTail 1) = some s' ∧
        s'.popResults = [some (some 5), none] ∧
        s.accepted.length ≤ s'.popped.length := by
  apply Machine.exists_run_of_map
    (fun s => ((viewMachine (⟨1#1, 0, rfl⟩ : Capacity 1) Nat
        (fun _ : Unit => false)).step s
        (ViewAction.clientStore Side.producer () true)).bind (fun s₁ =>
      ((viewMachine (⟨1#1, 0, rfl⟩ : Capacity 1) Nat
        (fun _ : Unit => false)).step s₁
        (ViewAction.clientLoad Side.consumer ()
          (s.threads.memory.next (Place.client ())))).bind (fun s₃ =>
      ((viewMachine (⟨1#1, 0, rfl⟩ : Capacity 1) Nat
        (fun _ : Unit => false)).runFrom s₃
        [ViewAction.popCall, ViewAction.popLoadTail 1, ViewAction.popReadSlot,
          ViewAction.popStoreHead, ViewAction.popCall]).bind (fun s₄ =>
      (s₄.step (ViewAction.popLoadTail 1)).map (fun s' =>
        (s'.popPc, s'.popResults))))))
    (some (PopPc.idle, [some (some 5), none])) (by decide +kernel)
  intro s hrun hshown
  rcases Option.bind_eq_some_iff.mp hshown with ⟨s₁, hstore, hshown⟩
  rcases Option.bind_eq_some_iff.mp hshown with ⟨s₃, hload, hshown⟩
  rcases Option.bind_eq_some_iff.mp hshown with ⟨s₄, hmore, hshown⟩
  rcases Option.map_eq_some_iff.mp hshown with ⟨s', hpop, hfields⟩
  rcases Prod.mk.inj hfields with ⟨hidle, hresults⟩
  have hnothing : (viewMachine (⟨1#1, 0, rfl⟩ : Capacity 1) Nat
      (fun _ : Unit => false)).runFrom s₁ [] = some s₁ := rfl
  have hcount := told_calls_count ⟨_, hrun⟩ hstore hnothing hload hmore
  exact ⟨s₁, hstore, s₃, hload, s₄, hmore, s', hpop, hresults,
    hcount.left rfl 1 s' hpop hidle⟩

end ViewSystem
end Spsc
end LowLatency
