import LowLatency.Bench.SpscThreads

/-!
# The whole stream of an SPSC bench

The store of `done` carries all stores of `tail`, so that the consumer thread,
once it has loaded it, finds the queue empty only after the last item.  What the
two loops compute on the way is described by an invariant of the producer loop
and by the samples of the items in order.
-/

namespace LowLatency
namespace Bench

open Foundation Spsc

section Calls

variable {W : Nat} {cap : Capacity W} {T : Type}
variable {q q' : ViewSystem cap Unit Bool T}

/-!
## A step of a call
-/

def pushItem? : PushPc T -> Option T
  | PushPc.idle => none
  | PushPc.loadHead item => some item
  | PushPc.writeSlot item => some item
  | PushPc.storeTail item => some item

/-- The call goes on, hands its item back, or has pushed it. -/
inductive PushOutcome (q q' : ViewSystem cap Unit Bool T) (item : T) : Prop where
  | runs (hpc : pushItem? q'.pushPc = some item)
      (haccepted : q'.accepted = q.accepted)
  | refused (hpc : q'.pushPc = PushPc.idle)
      (hresults : q'.pushResults = q.pushResults ++ [some item])
      (haccepted : q'.accepted = q.accepted)
  | accepted (hpc : q'.pushPc = PushPc.idle)
      (hresults : q'.pushResults = q.pushResults ++ [none])
      (haccepted : q'.accepted = q.accepted ++ [item])

/-- Nothing happens on the side of the consumer. -/
structure SameConsumer (q q' : ViewSystem cap Unit Bool T) : Prop where
  popPc : q'.popPc = q.popPc
  popped : q'.popped = q.popped
  done : q'.threads.memory (Place.client ()) =
    q.threads.memory (Place.client ())

structure SameProducer (q q' : ViewSystem cap Unit Bool T) : Prop where
  pushPc : q'.pushPc = q.pushPc
  accepted : q'.accepted = q.accepted
  done : q'.threads.memory (Place.client ()) =
    q.threads.memory (Place.client ())

theorem pushStep_queue {a : ViewAction Unit Bool T} (ha : isPushStep a = true)
    (h : q.step a = some q') :
    SameConsumer q q' ∧ exists item, pushItem? q.pushPc = some item ∧
      PushOutcome q q' item := by
  have hdone := ViewSystem.client_memory_step (x := ()) h
    (by intro side y v heq; rw [heq] at ha; cases ha)
  cases a with
  | pushLoadHead i =>
      rcases ViewSystem.pushLoadHead_inv h with
        ⟨item, head, threads, hpc, _, ⟨_, rfl⟩ | ⟨_, rfl⟩⟩
      · exact ⟨⟨rfl, rfl, hdone⟩, item, by rw [hpc]; rfl,
          PushOutcome.refused rfl rfl rfl⟩
      · exact ⟨⟨rfl, rfl, hdone⟩, item, by rw [hpc]; rfl,
          PushOutcome.runs rfl rfl⟩
  | pushWriteSlot =>
      rcases ViewSystem.pushWriteSlot_inv h with ⟨item, hpc, rfl⟩
      exact ⟨⟨rfl, rfl, hdone⟩, item, by rw [hpc]; rfl,
        PushOutcome.runs rfl rfl⟩
  | pushStoreTail =>
      rcases ViewSystem.pushStoreTail_inv h with ⟨item, hpc, rfl⟩
      exact ⟨⟨rfl, rfl, hdone⟩, item, by rw [hpc]; rfl,
        PushOutcome.accepted rfl rfl rfl⟩
  | pushCall | popCall | popLoadTail | popReadSlot | popStoreHead | dropHandle
    | dropFence | dropLoadHead | dropLoadTail | dropSlot | dropFree
    | clientStore | clientLoad => cases ha

/-- The call goes on, finds no item, or has popped one. -/
inductive PopOutcome (q q' : ViewSystem cap Unit Bool T) : Prop where
  | runs (hpc : q'.popPc ≠ PopPc.idle) (hpopped : q'.popped = q.popped)
  | empty (hpc : q'.popPc = PopPc.idle)
      (hresults : q'.popResults = q.popResults ++ [none])
      (hpopped : q'.popped = q.popped)
      (hview : (q.threads.view Side.consumer).current Place.tail ≤
        q'.popped.length)
  | item (item : Option T) (hpc : q'.popPc = PopPc.idle)
      (hresults : q'.popResults = q.popResults ++ [some item])
      (hpopped : q'.popped = q.popped ++ [item])

theorem popStep_queue {a : ViewAction Unit Bool T} (ha : isPopStep a = true)
    (hq : (viewMachine cap T (fun _ : Unit => false)).Reachable q)
    (h : q.step a = some q') :
    SameProducer q q' ∧ q.popPc ≠ PopPc.idle ∧ PopOutcome q q' := by
  have hdone := ViewSystem.client_memory_step (x := ()) h
    (by intro side y v heq; rw [heq] at ha; cases ha)
  cases a with
  | popLoadTail i =>
      have hview := ViewSystem.view_le_popped hq h
      rcases ViewSystem.popLoadTail_inv h with
        ⟨tail, threads, hpc, _, ⟨_, rfl⟩ | ⟨_, rfl⟩⟩
      · exact ⟨⟨rfl, rfl, hdone⟩, (by rw [hpc]; intro heq; cases heq),
          PopOutcome.empty rfl rfl rfl (hview rfl)⟩
      · exact ⟨⟨rfl, rfl, hdone⟩, (by rw [hpc]; intro heq; cases heq),
          PopOutcome.runs (by intro heq; cases heq) rfl⟩
  | popReadSlot =>
      rcases ViewSystem.popReadSlot_inv h with ⟨hpc, rfl⟩
      exact ⟨⟨rfl, rfl, hdone⟩, (by rw [hpc]; intro heq; cases heq),
        PopOutcome.runs (by intro heq; cases heq) rfl⟩
  | popStoreHead =>
      rcases ViewSystem.popStoreHead_inv h with ⟨item, hpc, rfl⟩
      exact ⟨⟨rfl, rfl, hdone⟩, (by rw [hpc]; intro heq; cases heq),
        PopOutcome.item item rfl rfl rfl⟩
  | pushCall | popCall | pushLoadHead | pushWriteSlot | pushStoreTail
    | dropHandle | dropFence | dropLoadHead | dropLoadTail | dropSlot | dropFree
    | clientStore | clientLoad => cases ha

end Calls

/-- A property of the producer loop and of the items accepted so far. -/
structure PushLoop.Keeps {T : Type} (L : PushLoop T)
    (P : L.State -> List T -> Prop) : Prop where
  start : P L.start []
  clock : forall p accepted tsc p', P p accepted -> L.clock p tsc = some p' ->
    P p' accepted
  refused : forall p accepted item, P p accepted -> L.offer p = some item ->
    P (L.answered p (some item)) accepted
  accepted : forall p accepted item, P p accepted -> L.offer p = some item ->
    P (L.answered p none) (accepted ++ [item])

/-- The thread has found `done` set. -/
def PopLoopPc.drains {T : Type} : PopLoopPc T -> Bool
  | polling drains => drains
  | recording drains _ => drains
  | loadDone => false
  | finished => true

namespace SpscThreads

variable {W : Nat} {cap : Capacity W} {T S : Type} {L : PushLoop T}
variable {sample : T -> BitVec 64 -> S} {warmup : Nat}
variable {s s' : SpscThreads cap L S}

/-!
## What each step does
-/

theorem clock_inv {tsc : BitVec 64} (h : s.clock tsc = some s') :
    exists p, L.clock s.producer tsc = some p ∧ s.queue.pushPc = PushPc.idle ∧
      s' = { s with producer := p } := by
  unfold clock at h
  split at h
  · rename_i hpc
    rcases Option.map_eq_some_iff.mp h with ⟨p, hp, hs'⟩
    exact ⟨p, hp, hpc, hs'.symm⟩
  · cases h

theorem push_inv (h : s.push = some s') :
    exists item q, L.offer s.producer = some item ∧
      s.queue.step (ViewAction.pushCall item) = some q ∧
      s' = { s with queue := q } := by
  unfold push at h
  split at h
  · rename_i item hitem
    rcases Option.map_eq_some_iff.mp h with ⟨q, hq, hs'⟩
    exact ⟨item, q, hitem, hq, hs'.symm⟩
  · cases h

theorem pushStep_inv {a : ViewAction Unit Bool T}
    (h : s.pushStep a = some s') :
    exists q item, s.queue.step a = some q ∧ SameConsumer s.queue q ∧
      pushItem? s.queue.pushPc = some item ∧
      ((pushItem? q.pushPc = some item ∧ q.accepted = s.queue.accepted ∧
          s' = { s with queue := q }) ∨
        (pushItem? q.pushPc = none ∧ q.accepted = s.queue.accepted ∧
          s' = { s with
            queue := q
            producer := L.answered s.producer (some item) }) ∨
        (pushItem? q.pushPc = none ∧
          q.accepted = s.queue.accepted ++ [item] ∧
          s' = { s with
            queue := q
            producer := L.answered s.producer none })) := by
  unfold pushStep at h
  split at h
  · rename_i ha
    rcases Option.map_eq_some_iff.mp h with ⟨q, hq, hs'⟩
    rcases pushStep_queue ha hq with ⟨hsame, item, hitem, houtcome⟩
    refine ⟨q, item, hq, hsame, hitem, ?_⟩
    cases houtcome with
    | runs hpc haccepted =>
        refine Or.inl ⟨hpc, haccepted, ?_⟩
        split at hs'
        · rename_i hidle _
          rw [hidle] at hpc
          cases hpc
        · exact hs'.symm
    | refused hpc hresults haccepted =>
        refine Or.inr (Or.inl ⟨by rw [hpc]; rfl, haccepted, ?_⟩)
        rw [hpc, hresults, List.getLast?_concat] at hs'
        exact hs'.symm
    | accepted hpc hresults haccepted =>
        refine Or.inr (Or.inr ⟨by rw [hpc]; rfl, haccepted, ?_⟩)
        rw [hpc, hresults, List.getLast?_concat] at hs'
        exact hs'.symm
  · cases h

theorem storeDone_inv (h : s.storeDone = some s') :
    exists q, L.finished s.producer = true ∧
      s.queue.step (ViewAction.clientStore Side.producer () true) = some q ∧
      s' = { s with
        queue := q
        stored := true } := by
  unfold storeDone at h
  split at h
  · rename_i hboth
    rcases Option.map_eq_some_iff.mp h with ⟨q, hq, hs'⟩
    exact ⟨q, (Bool.and_eq_true_iff.mp hboth).left, hq, hs'.symm⟩
  · cases h

theorem pop_inv (h : s.pop = some s') :
    exists drains q, s.pc = PopLoopPc.polling drains ∧
      s.queue.step ViewAction.popCall = some q ∧
      s' = { s with queue := q } := by
  unfold pop at h
  split at h
  · rename_i drains hpc
    rcases Option.map_eq_some_iff.mp h with ⟨q, hq, hs'⟩
    exact ⟨drains, q, hpc, hq, hs'.symm⟩
  · cases h

theorem popStep_inv {a : ViewAction Unit Bool T}
    (hq : (viewMachine cap T (fun _ : Unit => false)).Reachable s.queue)
    (h : s.popStep a = some s') :
    exists drains q, s.pc = PopLoopPc.polling drains ∧
      s.queue.step a = some q ∧ SameProducer s.queue q ∧
      ((q.popped = s.queue.popped ∧ s' = { s with queue := q }) ∨
        (q.popped = s.queue.popped ∧
          (s.queue.threads.view Side.consumer).current Place.tail ≤
            q.popped.length ∧
          s' = { s with
            queue := q
            pc :=
              if drains then PopLoopPc.finished else PopLoopPc.loadDone }) ∨
        (exists item, q.popped = s.queue.popped ++ [item] ∧
          s' = { s with
            queue := q
            pc := PopLoopPc.recording drains item })) := by
  unfold popStep at h
  split at h
  · rename_i drains hpc
    split at h
    · rename_i ha
      rcases Option.map_eq_some_iff.mp h with ⟨q, hstep, hs'⟩
      rcases popStep_queue ha hq hstep with ⟨hsame, _, houtcome⟩
      refine ⟨drains, q, hpc, hstep, hsame, ?_⟩
      cases houtcome with
      | runs hrun hpopped =>
          refine Or.inl ⟨hpopped, ?_⟩
          split at hs'
          · exact absurd (by assumption) hrun
          · exact absurd (by assumption) hrun
          · exact hs'.symm
      | empty hidle hresults hpopped hview =>
          refine Or.inr (Or.inl ⟨hpopped, hview, ?_⟩)
          rw [hidle, hresults, List.getLast?_concat] at hs'
          exact hs'.symm
      | item item hidle hresults hpopped =>
          refine Or.inr (Or.inr ⟨item, hpopped, ?_⟩)
          rw [hidle, hresults, List.getLast?_concat] at hs'
          exact hs'.symm
    · cases h
  · cases h

theorem record_inv {now : BitVec 64}
    (h : s.record sample warmup now = some s') :
    exists drains item, s.pc = PopLoopPc.recording drains item ∧
      s' = { s with
        pc := PopLoopPc.polling drains
        seen := s.seen + 1
        clocks := s.clocks ++ [now]
        samples :=
          if warmup ≤ s.seen then
            s.samples ++ [item.map (fun v => sample v now)]
          else s.samples } := by
  unfold record at h
  split at h
  · rename_i drains item hpc
    exact ⟨drains, item, hpc, (Option.some.inj h).symm⟩
  · cases h

theorem loadDone_inv {i : Nat} (h : s.loadDone i = some s') :
    exists v q, s.pc = PopLoopPc.loadDone ∧
      s.queue.clientLoad Side.consumer () i = some (v, q) ∧
      s' = { s with
        queue := q
        pc := PopLoopPc.polling v } := by
  unfold loadDone at h
  split at h
  · rename_i hpc
    rcases Option.map_eq_some_iff.mp h with ⟨⟨v, q⟩, hq, hs'⟩
    exact ⟨v, q, hpc, hq, hs'.symm⟩
  · cases h

theorem drop_inv {a : ViewAction Unit Bool T} (h : s.drop a = some s') :
    exists q, s.queue.step a = some q ∧ SameConsumer s.queue q ∧
      SameProducer s.queue q ∧ s' = { s with queue := q } := by
  unfold drop at h
  split at h
  · rename_i ha
    rcases Option.map_eq_some_iff.mp h with ⟨q, hq, hs'⟩
    have hdone := ViewSystem.client_memory_step (x := ()) hq
      (by intro side y v heq; rw [heq] at ha; cases ha)
    refine ⟨q, hq, ?_⟩
    cases a with
    | dropHandle side =>
        rcases ViewSystem.dropHandle_inv hq with ⟨_, _, rfl⟩
        exact ⟨⟨rfl, rfl, hdone⟩, ⟨rfl, rfl, hdone⟩, hs'.symm⟩
    | dropFence =>
        rcases ViewSystem.dropFence_inv hq with ⟨_, _, rfl⟩
        exact ⟨⟨rfl, rfl, hdone⟩, ⟨rfl, rfl, hdone⟩, hs'.symm⟩
    | dropLoadHead i =>
        rcases ViewSystem.dropLoadHead_inv hq with ⟨_, _, _, _, _, rfl⟩
        exact ⟨⟨rfl, rfl, hdone⟩, ⟨rfl, rfl, hdone⟩, hs'.symm⟩
    | dropLoadTail i =>
        rcases ViewSystem.dropLoadTail_inv hq with ⟨_, _, _, _, _, _, rfl⟩
        exact ⟨⟨rfl, rfl, hdone⟩, ⟨rfl, rfl, hdone⟩, hs'.symm⟩
    | dropSlot =>
        rcases ViewSystem.dropSlot_inv hq with ⟨_, _, _, _, _, rfl⟩
        exact ⟨⟨rfl, rfl, hdone⟩, ⟨rfl, rfl, hdone⟩, hs'.symm⟩
    | dropFree =>
        rcases ViewSystem.dropFree_inv hq with ⟨_, _, _, _, rfl⟩
        exact ⟨⟨rfl, rfl, hdone⟩, ⟨rfl, rfl, hdone⟩, hs'.symm⟩
    | pushCall | pushLoadHead | pushWriteSlot | pushStoreTail | popCall
      | popLoadTail | popReadSlot | popStoreHead | clientStore | clientLoad =>
        cases ha
  · cases h

theorem queue_step {a : ThreadAction T}
    (hq : (viewMachine cap T (fun _ : Unit => false)).Reachable s.queue)
    (h : s.step sample warmup a = some s') :
    s'.queue = s.queue ∨ exists b, s.queue.step b = some s'.queue := by
  cases a with
  | clock tsc =>
      rcases clock_inv h with ⟨_, _, _, rfl⟩
      exact Or.inl rfl
  | push =>
      rcases push_inv h with ⟨_, _, _, hq, rfl⟩
      exact Or.inr ⟨_, hq⟩
  | pushStep a =>
      rcases pushStep_inv h with
        ⟨_, _, hq, _, _, ⟨_, _, rfl⟩ | ⟨_, _, rfl⟩ | ⟨_, _, rfl⟩⟩
      · exact Or.inr ⟨_, hq⟩
      · exact Or.inr ⟨_, hq⟩
      · exact Or.inr ⟨_, hq⟩
  | storeDone =>
      rcases storeDone_inv h with ⟨_, _, hq, rfl⟩
      exact Or.inr ⟨_, hq⟩
  | pop =>
      rcases pop_inv h with ⟨_, _, _, hq, rfl⟩
      exact Or.inr ⟨_, hq⟩
  | popStep a =>
      rcases popStep_inv hq h with
        ⟨_, _, _, hstep, _, ⟨_, rfl⟩ | ⟨_, _, rfl⟩ | ⟨_, _, rfl⟩⟩
      · exact Or.inr ⟨_, hstep⟩
      · exact Or.inr ⟨_, hstep⟩
      · exact Or.inr ⟨_, hstep⟩
  | record now =>
      rcases record_inv h with ⟨_, _, _, rfl⟩
      exact Or.inl rfl
  | loadDone i =>
      rcases loadDone_inv h with ⟨v, q, _, hq, rfl⟩
      refine Or.inr ⟨ViewAction.clientLoad Side.consumer () i, ?_⟩
      exact Option.map_eq_some_iff.mpr ⟨(v, q), hq, rfl⟩
  | drop a =>
      rcases drop_inv h with ⟨_, hq, _, _, rfl⟩
      exact Or.inr ⟨a, hq⟩

theorem queue_reachable (hs : (spscThreads cap L sample warmup).Reachable s) :
    (viewMachine cap T (fun _ : Unit => false)).Reachable s.queue := by
  apply hs.invariant (P := fun s =>
    (viewMachine cap T (fun _ : Unit => false)).Reachable s.queue)
    (Machine.reachable_start _)
  intro s a s' hq h
  rcases queue_step hq h with heq | ⟨b, hb⟩
  · rw [heq]
    exact hq
  · exact hq.step hb

/-!
## The end of the stream
-/

/-- The view reaches the end of a stream that is complete. -/
def Complete (s : SpscThreads cap L S) (view : View (Place cap Unit)) : Prop :=
  L.finished s.producer = true ∧ s.queue.accepted.length ≤ view Place.tail

structure Stream (P : L.State -> List T -> Prop) (s : SpscThreads cap L S) :
    Prop where
  producer : P s.producer s.queue.accepted
  call : forall item, pushItem? s.queue.pushPc = some item ->
    L.offer s.producer = some item
  flag : (s.queue.threads.memory (Place.client ())).Each (fun _ msg =>
    msg.value = true -> s.Complete msg.view)
  told : s.pc.drains = true ->
    s.Complete (s.queue.threads.view Side.consumer).current
  done : s.pc = PopLoopPc.finished ->
    s.queue.accepted.length ≤ s.queue.popped.length

variable {P : L.State -> List T -> Prop}

theorem Complete.mono {view view' : View (Place cap Unit)}
    (h : s.Complete view) (hle : view ≤ view')
    (hproducer : s'.producer = s.producer)
    (haccepted : s'.queue.accepted = s.queue.accepted) : s'.Complete view' := by
  rw [Complete, hproducer, haccepted]
  exact ⟨h.left, Nat.le_trans h.right (hle Place.tail)⟩

theorem not_complete_of_offer {item : T}
    (hitem : L.offer s.producer = some item) (view : View (Place cap Unit)) :
    ¬ s.Complete view := by
  intro h
  rw [(L.ends _ h.left).left] at hitem
  cases hitem

namespace Stream

theorem start (hP : L.Keeps P) : Stream P (SpscThreads.start cap L S) where
  producer := hP.start
  call := by
    intro item hitem
    cases hitem
  flag := StoreHistory.each_initial (by intro hvalue; cases hvalue)
  told := by
    intro hdrains
    cases hdrains
  done := by
    intro hpc
    cases hpc

theorem frame (hs : Stream P s)
    (hgrows : Threads.Grows s.queue.threads s'.queue.threads)
    (hconsumer : SameConsumer s.queue s'.queue)
    (haccepted : s'.queue.accepted = s.queue.accepted)
    (hitem : forall item, pushItem? s'.queue.pushPc = some item ->
      L.offer s.producer = some item)
    (hproducer : s'.producer = s.producer) (hpc : s'.pc = s.pc) :
    Stream P s' := by
  constructor
  · rw [hproducer, haccepted]
    exact hs.producer
  · rw [hproducer]
    exact hitem
  · rw [hconsumer.done]
    exact hs.flag.mono (fun _ _ hmsg hvalue =>
      (hmsg hvalue).mono (le_refl _) hproducer haccepted)
  · rw [hpc]
    intro hdrains
    exact (hs.told hdrains).mono (hgrows.current _) hproducer haccepted
  · rw [hpc, haccepted, hconsumer.popped]
    exact hs.done

theorem of_unfinished (hs : Stream P s)
    (hnot : forall view, ¬ s.Complete view)
    (hconsumer : SameConsumer s.queue s'.queue) (hpc : s'.pc = s.pc)
    (hproducer : P s'.producer s'.queue.accepted)
    (hitem : forall item, pushItem? s'.queue.pushPc = some item ->
      L.offer s'.producer = some item) : Stream P s' := by
  constructor
  · exact hproducer
  · exact hitem
  · rw [hconsumer.done]
    exact hs.flag.mono (fun _ _ hmsg hvalue => absurd (hmsg hvalue) (hnot _))
  · rw [hpc]
    intro hdrains
    exact absurd (hs.told hdrains) (hnot _)
  · rw [hpc]
    intro hfinished
    have hdrains : s.pc.drains = true := by
      rw [hfinished]
      rfl
    exact absurd (hs.told hdrains) (hnot _)

theorem of_consumer (hs : Stream P s)
    (hgrows : Threads.Grows s.queue.threads s'.queue.threads)
    (hsame : SameProducer s.queue s'.queue)
    (hproducer : s'.producer = s.producer)
    (hdrains : s'.pc.drains = true -> s.pc.drains = true)
    (hdone : s'.pc = PopLoopPc.finished ->
      s'.queue.accepted.length ≤ s'.queue.popped.length) : Stream P s' := by
  refine ⟨?_, ?_, ?_, ?_, hdone⟩
  · rw [hproducer, hsame.accepted]
    exact hs.producer
  · rw [hproducer, hsame.pushPc]
    exact hs.call
  · rw [hsame.done]
    exact hs.flag.mono (fun _ _ hmsg hvalue =>
      (hmsg hvalue).mono (le_refl _) hproducer hsame.accepted)
  · intro htrue
    exact (hs.told (hdrains htrue)).mono (hgrows.current _) hproducer
      hsame.accepted

theorem clock (hs : Stream P s) (hP : L.Keeps P) {tsc : BitVec 64}
    (h : s.clock tsc = some s') : Stream P s' := by
  rcases clock_inv h with ⟨p, hp, hpc, rfl⟩
  apply hs.of_unfinished
  · intro view hcomplete
    rw [(L.ends _ hcomplete.left).right] at hp
    cases hp
  · exact ⟨rfl, rfl, rfl⟩
  · rfl
  · exact hP.clock _ _ _ _ hs.producer hp
  · intro item hitem
    rw [hpc] at hitem
    cases hitem

theorem push (hs : Stream P s) (h : s.push = some s') : Stream P s' := by
  rcases push_inv h with ⟨item, q, hoffer, hq, rfl⟩
  have hgrows := ViewSystem.grows_step hq
  rcases ViewSystem.pushCall_inv hq with ⟨_, _, rfl⟩
  refine hs.frame hgrows ⟨rfl, rfl, rfl⟩ rfl ?_ rfl rfl
  intro item' hitem
  rw [hoffer]
  cases hfull : s.queue.producer.looksFull cap with
  | true | false =>
      simpa [hfull, pushItem?] using hitem

theorem pushStep (hs : Stream P s) (hP : L.Keeps P)
    {a : ViewAction Unit Bool T} (h : s.pushStep a = some s') :
    Stream P s' := by
  rcases pushStep_inv h with ⟨q, item, hq, hconsumer, hitem, hcase⟩
  have hoffer := hs.call item hitem
  have hnot := not_complete_of_offer hoffer
  rcases hcase with ⟨hpc, haccepted, rfl⟩ | ⟨hpc, haccepted, rfl⟩ |
    ⟨hpc, haccepted, rfl⟩
  · refine hs.frame (ViewSystem.grows_step hq) hconsumer haccepted ?_ rfl rfl
    intro item' hitem'
    change pushItem? q.pushPc = some item' at hitem'
    rw [← hitem', hpc]
    exact hoffer
  · refine hs.of_unfinished hnot hconsumer rfl ?_ ?_
    · show P _ q.accepted
      rw [haccepted]
      exact hP.refused _ _ _ hs.producer hoffer
    · intro item' hitem'
      change pushItem? q.pushPc = some item' at hitem'
      rw [hpc] at hitem'
      cases hitem'
  · refine hs.of_unfinished hnot hconsumer rfl ?_ ?_
    · show P _ q.accepted
      rw [haccepted]
      exact hP.accepted _ _ _ hs.producer hoffer
    · intro item' hitem'
      change pushItem? q.pushPc = some item' at hitem'
      rw [hpc] at hitem'
      cases hitem'

theorem storeDone (hs : Stream P s)
    (hq : (viewMachine cap T (fun _ : Unit => false)).Reachable s.queue)
    (h : s.storeDone = some s') : Stream P s' := by
  rcases storeDone_inv h with ⟨q, hfinished, hstep, rfl⟩
  rcases ViewSystem.simulated hq with ⟨t, ht, hg, hshows⟩
  have htail := (ViewSystem.counts_le_view hg hshows
    (System.Counters.reachable ht)).left
  have hgrows := ViewSystem.grows_step hstep
  rcases ViewSystem.clientStore_inv hstep with ⟨_, rfl⟩
  have hst := s.queue.threads.stores_storeRelease Side.producer
    (Place.client () : Place cap Unit) true
  refine ⟨hs.producer, hs.call, ?_, ?_, hs.done⟩
  · rw [hst.memory, ViewMemory.append_self]
    apply StoreHistory.Each.store
    · exact hs.flag.mono (fun _ _ hmsg hvalue => hmsg hvalue)
    · intro _
      exact ⟨hfinished, Nat.le_trans htail (Nat.le_max_left _ _)⟩
  · intro hdrains
    exact (hs.told hdrains).mono (hgrows.current _) rfl rfl

theorem pop (hs : Stream P s) (h : s.pop = some s') : Stream P s' := by
  rcases pop_inv h with ⟨drains, q, _, hq, rfl⟩
  have hgrows := ViewSystem.grows_step hq
  rcases ViewSystem.popCall_inv hq with ⟨_, _, rfl⟩
  refine hs.of_consumer hgrows ⟨rfl, rfl, rfl⟩ rfl id ?_
  exact hs.done

theorem popStep (hs : Stream P s)
    (hq : (viewMachine cap T (fun _ : Unit => false)).Reachable s.queue)
    {a : ViewAction Unit Bool T} (h : s.popStep a = some s') :
    Stream P s' := by
  rcases popStep_inv hq h with ⟨drains, q, hpc, hstep, hsame, hcase⟩
  have hgrows := ViewSystem.grows_step hstep
  rcases hcase with ⟨_, rfl⟩ | ⟨_, hview, rfl⟩ | ⟨item, _, rfl⟩
  · refine hs.of_consumer hgrows hsame rfl id ?_
    intro hfinished
    rw [hpc] at hfinished
    cases hfinished
  · cases drains with
    | true =>
        have htold := hs.told (by rw [hpc]; rfl)
        refine hs.of_consumer hgrows hsame rfl (fun _ => by rw [hpc]; rfl) ?_
        intro _
        show q.accepted.length ≤ q.popped.length
        rw [hsame.accepted]
        exact Nat.le_trans htold.right hview
    | false =>
        refine hs.of_consumer hgrows hsame rfl ?_ ?_
        · intro habsurd
          cases habsurd
        · intro habsurd
          cases habsurd
  · refine hs.of_consumer hgrows hsame rfl ?_ ?_
    · intro hdrains
      rw [hpc]
      exact hdrains
    · intro habsurd
      cases habsurd

theorem record (hs : Stream P s) {now : BitVec 64}
    (h : s.record sample warmup now = some s') : Stream P s' := by
  rcases record_inv h with ⟨drains, item, hpc, rfl⟩
  refine hs.of_consumer (Threads.Grows.refl _) ⟨rfl, rfl, rfl⟩ rfl ?_ ?_
  · intro hdrains
    rw [hpc]
    exact hdrains
  · intro habsurd
    cases habsurd

theorem loadDone (hs : Stream P s) {i : Nat} (h : s.loadDone i = some s') :
    Stream P s' := by
  rcases loadDone_inv h with ⟨v, q, hpc, hload, rfl⟩
  rcases ViewSystem.clientLoad_inv hload with ⟨threads, _, hacquire, rfl⟩
  rcases Threads.loadAcquire_inv hacquire with ⟨msg, hmsg, rfl, hl, hview⟩
  have hflag := (hs.flag.load hmsg).right.right
  refine ⟨hs.producer, hs.call, ?_, ?_, ?_⟩
  · rw [hl.memory]
    exact hs.flag.mono (fun _ _ hmsg hvalue => hmsg hvalue)
  · intro hvalue
    refine (hflag hvalue).mono ?_ rfl rfl
    rw [hview]
    exact ThreadView.view_le_loadAcquire _ _ _ _
  · intro habsurd
    cases habsurd

theorem drop (hs : Stream P s) {a : ViewAction Unit Bool T}
    (h : s.drop a = some s') : Stream P s' := by
  rcases drop_inv h with ⟨q, hq, hconsumer, hproducer, rfl⟩
  refine hs.frame (ViewSystem.grows_step hq) hconsumer hproducer.accepted ?_
    rfl rfl
  show forall item, pushItem? q.pushPc = some item -> _
  rw [hproducer.pushPc]
  exact hs.call

theorem step (hs : Stream P s) (hP : L.Keeps P)
    (hq : (viewMachine cap T (fun _ : Unit => false)).Reachable s.queue)
    {a : ThreadAction T} (h : s.step sample warmup a = some s') :
    Stream P s' := by
  cases a with
  | clock tsc => exact hs.clock hP h
  | push => exact hs.push h
  | pushStep a => exact hs.pushStep hP h
  | storeDone => exact hs.storeDone hq h
  | pop => exact hs.pop h
  | popStep a => exact hs.popStep hq h
  | record now => exact hs.record h
  | loadDone i => exact hs.loadDone h
  | drop a => exact hs.drop h

theorem reachable (hP : L.Keeps P)
    (hs : (spscThreads cap L sample warmup).Reachable s) : Stream P s :=
  hs.invariant_of_reachable (Stream.start hP)
    (fun _ _ _ hreach hstream h =>
      hstream.step hP (queue_reachable hreach) h)

end Stream

/-!
## The samples
-/

def pending : PopLoopPc T -> List (Option T)
  | PopLoopPc.recording _ item => [item]
  | _ => []

def sampleOf (sample : T -> BitVec 64 -> S) (item : Option T)
    (now : BitVec 64) : Option S :=
  item.map (fun v => sample v now)

structure Recorded (sample : T -> BitVec 64 -> S) (warmup : Nat)
    (s : SpscThreads cap L S) : Prop where
  seen : s.clocks.length = s.seen
  samples : exists items, s.queue.popped = items ++ pending s.pc ∧
    items.length = s.seen ∧
    s.samples = (List.zipWith (sampleOf sample) items s.clocks).drop warmup

namespace Recorded

theorem start : Recorded sample warmup (SpscThreads.start cap L S) where
  seen := rfl
  samples := ⟨[], rfl, rfl, by simp [SpscThreads.start]⟩

theorem frame (hr : Recorded sample warmup s)
    (hpopped : s'.queue.popped = s.queue.popped)
    (hpending : pending s'.pc = pending s.pc) (hseen : s'.seen = s.seen)
    (hclocks : s'.clocks = s.clocks) (hsamples : s'.samples = s.samples) :
    Recorded sample warmup s' := by
  constructor
  · rw [hclocks, hseen]
    exact hr.seen
  · rw [hpopped, hpending, hseen, hsamples, hclocks]
    exact hr.samples

theorem popStep (hr : Recorded sample warmup s)
    (hq : (viewMachine cap T (fun _ : Unit => false)).Reachable s.queue)
    {a : ViewAction Unit Bool T} (h : s.popStep a = some s') :
    Recorded sample warmup s' := by
  rcases popStep_inv hq h with ⟨drains, q, hpc, _, _, hcase⟩
  have hnothing : pending s.pc = [] := by
    rw [hpc]
    rfl
  rcases hcase with ⟨hpopped, rfl⟩ | ⟨hpopped, _, rfl⟩ | ⟨item, hpopped, rfl⟩
  · exact hr.frame hpopped rfl rfl rfl rfl
  · refine hr.frame hpopped ?_ rfl rfl rfl
    rw [hnothing]
    cases drains with
    | true | false =>
        rfl
  · rcases hr.samples with ⟨items, hitems, hlength, hsamples⟩
    rw [hnothing, List.append_nil] at hitems
    refine ⟨hr.seen, items, ?_, hlength, hsamples⟩
    show q.popped = items ++ [item]
    rw [hpopped, hitems]

theorem record (hr : Recorded sample warmup s) {now : BitVec 64}
    (h : s.record sample warmup now = some s') : Recorded sample warmup s' := by
  rcases record_inv h with ⟨drains, item, hpc, rfl⟩
  rcases hr.samples with ⟨items, hitems, hlength, hsamples⟩
  have hlengths : items.length = s.clocks.length := by
    rw [hlength, hr.seen]
  refine ⟨?_, items ++ [item], ?_, ?_, ?_⟩
  · rw [List.length_append, hr.seen]
    rfl
  · show s.queue.popped = items ++ [item] ++ []
    rw [List.append_nil, hitems, hpc]
    rfl
  · rw [List.length_append, hlength]
    rfl
  · show (if warmup ≤ s.seen then
        s.samples ++ [item.map (fun v => sample v now)] else s.samples) = _
    have hzip : (List.zipWith (sampleOf sample) items s.clocks).length =
        s.seen := by
      rw [List.length_zipWith, hlengths, Nat.min_self, hr.seen]
    rw [List.zipWith_append hlengths]
    split
    · rename_i hwarm
      rw [List.drop_append_of_le_length (by rw [hzip]; exact hwarm),
        ← hsamples]
      rfl
    · rename_i hcold
      rw [hsamples, List.drop_eq_nil_of_le (by lia),
        List.drop_eq_nil_of_le]
      rw [List.length_append, hzip]
      exact Nat.lt_of_not_le hcold

theorem step (hr : Recorded sample warmup s)
    (hq : (viewMachine cap T (fun _ : Unit => false)).Reachable s.queue)
    {a : ThreadAction T} (h : s.step sample warmup a = some s') :
    Recorded sample warmup s' := by
  cases a with
  | clock tsc =>
      rcases clock_inv h with ⟨_, _, _, rfl⟩
      exact hr.frame rfl rfl rfl rfl rfl
  | push =>
      rcases push_inv h with ⟨_, _, _, hstep, rfl⟩
      rcases ViewSystem.pushCall_inv hstep with ⟨_, _, rfl⟩
      exact hr.frame rfl rfl rfl rfl rfl
  | pushStep a =>
      rcases pushStep_inv h with
        ⟨_, _, _, hsame, _, ⟨_, _, rfl⟩ | ⟨_, _, rfl⟩ | ⟨_, _, rfl⟩⟩
      · exact hr.frame hsame.popped rfl rfl rfl rfl
      · exact hr.frame hsame.popped rfl rfl rfl rfl
      · exact hr.frame hsame.popped rfl rfl rfl rfl
  | storeDone =>
      rcases storeDone_inv h with ⟨_, _, hstep, rfl⟩
      rcases ViewSystem.clientStore_inv hstep with ⟨_, rfl⟩
      exact hr.frame rfl rfl rfl rfl rfl
  | pop =>
      rcases pop_inv h with ⟨_, _, _, hstep, rfl⟩
      rcases ViewSystem.popCall_inv hstep with ⟨_, _, rfl⟩
      exact hr.frame rfl rfl rfl rfl rfl
  | popStep a => exact hr.popStep hq h
  | record now => exact hr.record h
  | loadDone i =>
      rcases loadDone_inv h with ⟨v, q, hpc, hload, rfl⟩
      rcases ViewSystem.clientLoad_inv hload with ⟨_, _, _, rfl⟩
      refine hr.frame rfl ?_ rfl rfl rfl
      rw [hpc]
      rfl
  | drop a =>
      rcases drop_inv h with ⟨_, _, hconsumer, _, rfl⟩
      exact hr.frame hconsumer.popped rfl rfl rfl rfl

theorem reachable (hs : (spscThreads cap L sample warmup).Reachable s) :
    Recorded sample warmup s :=
  hs.invariant_of_reachable (Recorded.start (L := L))
    (fun _ _ _ hreach hr h => hr.step (queue_reachable hreach) h)

end Recorded

/-!
## The results of a bench
-/

/-- All items of the producer loop, in order, and a sample of each after the warmup. -/
structure Received (sample : T -> BitVec 64 -> S) (warmup : Nat)
    (s : SpscThreads cap L S) : Prop where
  finished : L.finished s.producer = true
  popped : s.queue.popped = s.queue.accepted.map some
  seen : s.seen = s.queue.accepted.length
  clocks : s.clocks.length = s.queue.accepted.length
  samples : s.samples =
    ((List.zipWith sample s.queue.accepted s.clocks).drop warmup).map some
  clean : s.queue.threads.racy = false ∧ s.queue.usedFreed = false
  freed : s.queue.disposal = DropPc.freed -> s.queue.destroyed = []

theorem received (hs : (spscThreads cap L sample warmup).Reachable s)
    (hpc : s.pc = PopLoopPc.finished) : Received sample warmup s := by
  have hq := queue_reachable hs
  have hstream := Stream.reachable (P := fun _ _ => True)
    ⟨trivial, fun _ _ _ _ _ _ => trivial, fun _ _ _ _ _ => trivial,
      fun _ _ _ _ _ => trivial⟩ hs
  have hr := Recorded.reachable hs
  rcases ViewSystem.view_fifo hq with ⟨hfifo, _, _, _, hfreed⟩
  have htold := hstream.told (by rw [hpc]; rfl)
  have hpopped : s.queue.popped = s.queue.accepted.map some := by
    apply hfifo.eq_of_length_le
    rw [List.length_map]
    exact hstream.done hpc
  rcases hr.samples with ⟨items, hitems, hlength, hsamples⟩
  rw [hpc] at hitems
  have hitems' : items = s.queue.accepted.map some := by
    rw [← hpopped, hitems]
    exact (List.append_nil _).symm
  have hseen : s.seen = s.queue.accepted.length := by
    rw [← hlength, hitems', List.length_map]
  refine ⟨htold.left, hpopped, hseen, hr.seen.trans hseen, ?_,
    ViewSystem.no_race_nor_use_after_free hq, ?_⟩
  · rw [hsamples, hitems', List.zipWith_map_left, List.map_drop,
      List.map_zipWith]
    rfl
  · intro hdisposal
    rcases hfreed hdisposal with ⟨rest, hdestroyed, hsplit⟩
    rw [hpopped, List.self_eq_append_right] at hsplit
    rw [hdestroyed, List.map_eq_nil_iff.mp hsplit]
    rfl

end SpscThreads
end Bench
end LowLatency
