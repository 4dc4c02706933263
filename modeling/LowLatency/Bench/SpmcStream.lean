import LowLatency.Bench.SpmcThreads

/-!
# The whole stream of an SPMC bench

A consumer thread that has found `done` set has heard of all publishes, so that
the ring is empty for it only at the end of the stream.  What the two loops
compute on the way is described by an invariant of each loop: of the producer
loop and the values published so far, and of the consumer loop and the answers it
was given.
-/

namespace LowLatency
namespace Bench

open Foundation Spmc

section Reads

variable {W : Nat} {cap : Capacity W} {m : Nat} {Word : Type}
variable {q q' : RelaxedSystem cap m Word} {r r' : RelaxedReader cap m Word}

/-!
## A step of a call
-/

/-- The call goes on, or has returned with the last record of the log. -/
inductive ReadOutcome (q : RelaxedSystem cap m Word)
    (r r' : RelaxedReader cap m Word) : Prop where
  | runs (hpc : r'.reader.thread.pc ≠ ReadPc.idle)
      (hlog : r'.reader.log = r.reader.log)
  | returned (e : ReadRecord W m Word)
      (hpc : r'.reader.thread.pc = ReadPc.idle)
      (hlog : r'.reader.log = r.reader.log ++ [e])
      (hprogress : e.progress = q.progress)

theorem afterSeq_reader (reader : Reader W m Word) (j : Fin cap.size) (k : Nat)
    (msg : Message (Spmc.Place cap m) (BitVec W)) :
    (RelaxedSystem.afterSeq r reader j k msg).reader = reader := by
  unfold RelaxedSystem.afterSeq
  split <;> rfl

theorem readStep_outcome {a : RelaxedReadAction m} (ha : isLoad a = true)
    (h : q.readStep r a = some r') :
    r.reader.thread.pc ≠ ReadPc.idle ∧ r'.reader.start = r.reader.start ∧
      ReadOutcome q r r' := by
  cases a with
  | call => cases ha
  | loadWriteCursor n =>
      rcases RelaxedSystem.loadWriteCursor_inv h with
        ⟨msg, reader, _, hgot, rfl⟩
      rcases Reader.gotWriteCursor_inv hgot with
        ⟨hpc, _, rfl⟩ | ⟨hpc, _, rfl⟩ | ⟨hpc, rfl⟩
      · exact ⟨(by rw [hpc]; intro heq; cases heq), rfl,
          ReadOutcome.returned _ rfl rfl rfl⟩
      · exact ⟨(by rw [hpc]; intro heq; cases heq), rfl,
          ReadOutcome.runs (by intro heq; cases heq) rfl⟩
      · exact ⟨(by rw [hpc]; intro heq; cases heq), rfl,
          ReadOutcome.returned _ rfl rfl rfl⟩
  | loadSeq k =>
      rcases RelaxedSystem.loadSeq_inv h with ⟨msg, reader, _, hgot, rfl⟩
      have hreader := afterSeq_reader (r := r) reader
        (r.reader.thread.state.slot cap) k msg
      rcases Reader.gotSeq_inv hgot with ⟨stats, hcases⟩
      rcases hcases with ⟨hpc, _, hr⟩ | ⟨hpc, _, _, hr⟩ | ⟨hpc, _, hr⟩ |
        ⟨_, v, hpc, _, hr⟩ |
        ⟨_, _, hpc, _, hr⟩
      · refine ⟨(by rw [hpc]; intro heq; cases heq), by rw [hreader, hr],
          ReadOutcome.runs ?_ ?_⟩
        · rw [hreader, hr, hpc]
          intro heq
          cases heq
        · rw [hreader, hr]
      · refine ⟨(by rw [hpc]; intro heq; cases heq), by rw [hreader, hr],
          ReadOutcome.runs ?_ ?_⟩
        · rw [hreader, hr]
          intro heq
          cases heq
        · rw [hreader, hr]
      · refine ⟨(by rw [hpc]; intro heq; cases heq), by rw [hreader, hr],
          ReadOutcome.runs ?_ ?_⟩
        · rw [hreader, hr]
          intro heq
          cases heq
        · rw [hreader, hr]
      · refine ⟨(by rw [hpc]; intro heq; cases heq), by rw [hreader, hr],
          ReadOutcome.returned
            ⟨r.reader.position, ReadResult.value v, q.progress⟩ ?_ ?_ rfl⟩
        · rw [hreader, hr]
        · rw [hreader, hr]
      · refine ⟨(by rw [hpc]; intro heq; cases heq), by rw [hreader, hr],
          ReadOutcome.runs ?_ ?_⟩
        · rw [hreader, hr]
          intro heq
          cases heq
        · rw [hreader, hr]
  | loadWord w u =>
      rcases RelaxedSystem.loadWord_inv h with ⟨msg, reader, _, hgot, rfl⟩
      rcases Reader.gotWord_inv hgot with ⟨seq1, copied, hpc, _, rfl⟩
      exact ⟨(by rw [hpc]; intro heq; cases heq), rfl,
        ReadOutcome.runs (by intro heq; cases heq) rfl⟩

theorem readers_setReader_self (q : RelaxedSystem cap m Word) (c : Nat)
    (r : RelaxedReader cap m Word) : (q.setReader c r).readers c = some r := by
  simp [RelaxedSystem.setReader]

theorem step_read {c : Nat} {a : RelaxedReadAction m}
    (hr : q.readers c = some r) (h : q.readStep r a = some r') :
    q.step (RelaxedAction.read c a) = some (q.setReader c r') := by
  show q.read c a = _
  unfold RelaxedSystem.read
  rw [hr]
  exact congrArg (Option.map (q.setReader c)) h

theorem publishStep_queue {a : RelaxedAction m Word}
    (ha : isPublishStep a = true) (h : q.step a = some q') :
    q'.readers = q.readers ∧ q'.published = q.published ∧
      q.publishPc ≠ PublishPc.idle := by
  cases a with
  | publishStoreOdd =>
      rcases RelaxedSystem.publishStoreOdd_inv h with ⟨_, _, hpc, rfl⟩
      exact ⟨rfl, rfl, by rw [hpc]; intro heq; cases heq⟩
  | publishWriteWord w =>
      rcases RelaxedSystem.publishWriteWord_inv h with ⟨_, _, _, hpc, _, rfl⟩
      exact ⟨rfl, rfl, by rw [hpc]; intro heq; cases heq⟩
  | publishStoreEven =>
      rcases RelaxedSystem.publishStoreEven_inv h with ⟨_, _, _, hpc, _, rfl⟩
      exact ⟨rfl, rfl, by rw [hpc]; intro heq; cases heq⟩
  | publishStoreCursor =>
      rcases RelaxedSystem.publishStoreCursor_inv h with ⟨_, hpc, rfl⟩
      exact ⟨rfl, rfl, by rw [hpc]; intro heq; cases heq⟩
  | publishCall | read | clone | hear => cases ha

end Reads

/-- A property of the producer loop and of the values published so far. -/
structure PushLoop.Publishes {T : Type} (L : PushLoop T)
    (P : L.State -> List T -> Prop) : Prop where
  start : P L.start []
  clock : forall p published tsc p', P p published ->
    L.clock p tsc = some p' -> P p' published
  published : forall p published item, P p published ->
    L.offer p = some item -> P (L.answered p none) (published ++ [item])

/-- A property of the consumer loop, of its answers, and of what it was told. -/
structure ReadLoop.Keeps {W m : Nat} {Word : Type} (R : ReadLoop W m Word)
    (Q : R.State -> List (ReadResult W m Word) -> Option Nat -> Prop) :
    Prop where
  start : Q R.start [] none
  clock : forall c answers told tsc c', Q c answers told ->
    R.clock c tsc = some c' -> Q c' answers told
  answered : forall c answers told result, Q c answers told ->
    R.reads c = true -> Q (R.answered c result) (answers ++ [result]) told
  missed : forall c answers told, Q c answers told -> R.asks c = true ->
    Q (R.loaded c false) answers told
  found : forall c answers told, Q c answers told -> R.asks c = true ->
    Q (R.loaded c true) answers (some answers.length)

namespace SpmcThreads

variable {W : Nat} {cap : Capacity W} {m : Nat} {Word : Type}
variable {L : PushLoop (Payload m Word)} {R : ReadLoop W m Word}
variable {s s' : SpmcThreads cap L R}

/-!
## What each step does
-/

theorem producerClock_inv {tsc : BitVec 64}
    (h : s.producerClock tsc = some s') :
    exists p, L.clock s.producer tsc = some p ∧
      s.queue.publishPc = PublishPc.idle ∧ s' = { s with producer := p } := by
  unfold producerClock at h
  split at h
  · rename_i hpc
    rcases Option.map_eq_some_iff.mp h with ⟨p, hp, hs'⟩
    exact ⟨p, hp, hpc, hs'.symm⟩
  · cases h

theorem publish_inv {n : Nat} (h : s.publish n = some s') :
    exists item q, L.offer s.producer = some item ∧
      s.queue.step (RelaxedAction.publishCall item n) = some q ∧
      s' = { s with queue := q } := by
  unfold publish at h
  split at h
  · rename_i item hitem
    rcases Option.map_eq_some_iff.mp h with ⟨q, hq, hs'⟩
    exact ⟨item, q, hitem, hq, hs'.symm⟩
  · cases h

theorem publishStep_inv {a : RelaxedAction m Word}
    (h : s.publishStep a = some s') :
    exists q, s.queue.step a = some q ∧ q.readers = s.queue.readers ∧
      q.published = s.queue.published ∧
      s.queue.publishPc ≠ PublishPc.idle ∧
      ((q.publishPc ≠ PublishPc.idle ∧ s' = { s with queue := q }) ∨
        (q.publishPc = PublishPc.idle ∧
          s' = { s with
            queue := q
            producer := L.answered s.producer none })) := by
  unfold publishStep at h
  split at h
  · rename_i ha
    rcases Option.map_eq_some_iff.mp h with ⟨q, hq, hs'⟩
    rcases publishStep_queue ha hq with ⟨hreaders, hpublished, hbusy⟩
    refine ⟨q, hq, hreaders, hpublished, hbusy, ?_⟩
    split at hs'
    · rename_i hpc
      exact Or.inr ⟨hpc, hs'.symm⟩
    · rename_i hpc
      exact Or.inl ⟨hpc, hs'.symm⟩
  · cases h

theorem storeDone_inv (h : s.storeDone = some s') :
    L.finished s.producer = true ∧ s' = { s with stored := true } := by
  unfold storeDone at h
  split at h
  · rename_i hboth
    exact ⟨(Bool.and_eq_true_iff.mp hboth).left, (Option.some.inj h).symm⟩
  · cases h

theorem consumerClock_inv {tsc : BitVec 64}
    (h : s.consumerClock tsc = some s') :
    exists c, R.clock s.consumer tsc = some c ∧
      s' = { s with consumer := c } := by
  rcases Option.map_eq_some_iff.mp h with ⟨c, hc, hs'⟩
  exact ⟨c, hc, hs'.symm⟩

theorem read_inv (h : s.read = some s') :
    exists r r', R.reads s.consumer = true ∧ s.queue.readers 0 = some r ∧
      s.queue.readStep r RelaxedReadAction.call = some r' ∧
      s' = { s with queue := s.queue.setReader 0 r' } := by
  unfold read at h
  split at h
  · rename_i hreads
    rcases Option.map_eq_some_iff.mp h with ⟨q, hq, hs'⟩
    rcases RelaxedSystem.read_inv hq with ⟨r, r', hr, hstep, rfl⟩
    exact ⟨r, r', hreads, hr, hstep, hs'.symm⟩
  · cases h

theorem readStep_inv {a : RelaxedReadAction m}
    (h : s.readStep a = some s') :
    exists r r', s.queue.readers 0 = some r ∧
      s.queue.readStep r a = some r' ∧ r.reader.thread.pc ≠ ReadPc.idle ∧
      r'.reader.start = r.reader.start ∧
      ((r'.reader.log = r.reader.log ∧
          s' = { s with queue := s.queue.setReader 0 r' }) ∨
        (exists e, r'.reader.thread.pc = ReadPc.idle ∧
          r'.reader.log = r.reader.log ++ [e] ∧
          e.progress = s.queue.progress ∧
          s' = { s with
            queue := s.queue.setReader 0 r'
            consumer := R.answered s.consumer e.result })) := by
  unfold readStep at h
  split at h
  · rename_i ha
    rcases Option.map_eq_some_iff.mp h with ⟨q, hq, hs'⟩
    rcases RelaxedSystem.read_inv hq with ⟨r, r', hr, hstep, rfl⟩
    rcases readStep_outcome ha hstep with ⟨hbusy, hstart, houtcome⟩
    have hnew := readers_setReader_self s.queue 0 r'
    refine ⟨r, r', hr, hstep, hbusy, hstart, ?_⟩
    cases houtcome with
    | runs hpc hlog =>
        have hnone : returned? (s.queue.setReader 0 r') = none := by
          simp only [returned?, hnew]
        rw [hnone] at hs'
        exact Or.inl ⟨hlog, hs'.symm⟩
    | returned e hpc hlog hprogress =>
        have hsome : returned? (s.queue.setReader 0 r') = some e.result := by
          simp only [returned?, hnew, hpc, hlog, List.getLast?_concat,
            Option.map_some]
        rw [hsome] at hs'
        exact Or.inr ⟨e, hpc, hlog, hprogress, hs'.symm⟩
  · cases h

theorem loadDone_inv {answer : Bool} (h : s.loadDone answer = some s') :
    R.asks s.consumer = true ∧
      ((answer = false ∧
          s' = { s with consumer := R.loaded s.consumer false }) ∨
        (exists q, s.stored = true ∧
          s.queue.step (RelaxedAction.hear 0 none) = some q ∧
          s' = { s with
            queue := q
            consumer := R.loaded s.consumer true
            told := some (readLog s.queue).length })) := by
  unfold loadDone at h
  split at h
  · rename_i hasks
    refine ⟨hasks, ?_⟩
    cases answer with
    | false => exact Or.inl ⟨rfl, (Option.some.inj h).symm⟩
    | true =>
        simp only at h
        split at h
        · rename_i hstored
          rcases Option.map_eq_some_iff.mp h with ⟨q, hq, hs'⟩
          exact Or.inr ⟨q, hstored, hq, hs'.symm⟩
        · cases h
  · cases h

theorem queue_step {a : SpmcThreadAction m Word} (h : s.step a = some s') :
    s'.queue = s.queue ∨ exists b, s.queue.step b = some s'.queue := by
  cases a with
  | producerClock tsc =>
      rcases producerClock_inv h with ⟨_, _, _, rfl⟩
      exact Or.inl rfl
  | publish n =>
      rcases publish_inv h with ⟨_, _, _, hq, rfl⟩
      exact Or.inr ⟨_, hq⟩
  | publishStep a =>
      rcases publishStep_inv h with
        ⟨_, hq, _, _, _, ⟨_, rfl⟩ | ⟨_, rfl⟩⟩
      · exact Or.inr ⟨_, hq⟩
      · exact Or.inr ⟨_, hq⟩
  | storeDone =>
      rcases storeDone_inv h with ⟨_, rfl⟩
      exact Or.inl rfl
  | consumerClock tsc =>
      rcases consumerClock_inv h with ⟨_, _, rfl⟩
      exact Or.inl rfl
  | read =>
      rcases read_inv h with ⟨r, r', _, hr, hstep, rfl⟩
      exact Or.inr ⟨_, step_read hr hstep⟩
  | readStep a =>
      rcases readStep_inv h with
        ⟨r, r', hr, hstep, _, _, ⟨_, rfl⟩ | ⟨_, _, _, _, rfl⟩⟩
      · exact Or.inr ⟨_, step_read hr hstep⟩
      · exact Or.inr ⟨_, step_read hr hstep⟩
  | loadDone answer =>
      rcases loadDone_inv h with ⟨_, ⟨_, rfl⟩ | ⟨_, _, hq, rfl⟩⟩
      · exact Or.inl rfl
      · exact Or.inr ⟨_, hq⟩

theorem queue_reachable [Zero Word]
    (hs : (spmcThreads cap L R).Reachable s) :
    (relaxedMachine cap m Word).Reachable s.queue := by
  apply hs.invariant (P := fun s =>
    (relaxedMachine cap m Word).Reachable s.queue) (Machine.reachable_start _)
  intro s a s' hq h
  rcases queue_step h with heq | ⟨b, hb⟩
  · rw [heq]
    exact hq
  · exact hq.step hb

/-!
## The end of the stream
-/

inductive Publishing (P : L.State -> List (Payload m Word) -> Prop)
    (s : SpmcThreads cap L R) : Prop where
  | between (hpc : s.queue.publishPc = PublishPc.idle)
      (hp : P s.producer s.queue.published)
  | during (accepted : List (Payload m Word)) (item : Payload m Word)
      (hpc : s.queue.publishPc ≠ PublishPc.idle) (hp : P s.producer accepted)
      (hoffer : L.offer s.producer = some item)
      (hpublished : s.queue.published = accepted ++ [item])

structure Reading
    (Q : R.State -> List (ReadResult W m Word) -> Option Nat -> Prop)
    (s : SpmcThreads cap L R) (r : RelaxedReader cap m Word) : Prop where
  start : r.reader.start = 0
  consumer : Q s.consumer (r.reader.log.map ReadRecord.result) s.told
  call : r.reader.thread.pc ≠ ReadPc.idle -> R.reads s.consumer = true
  told : forall k, s.told = some k -> s.stored = true ∧
    s.queue.published.length ≤ r.view.current Spmc.Place.writeCursor
  ended : forall k e, s.told = some k -> e ∈ r.reader.log.drop k ->
    e.result = ReadResult.empty ->
      e.progress.completed < e.position + 2 ^ W ->
        s.queue.published.length ≤ e.position

structure Stream (P : L.State -> List (Payload m Word) -> Prop)
    (Q : R.State -> List (ReadResult W m Word) -> Option Nat -> Prop)
    (s : SpmcThreads cap L R) : Prop where
  producer : Publishing P s
  stored : s.stored = true -> L.finished s.producer = true
  reader : exists r, s.queue.readers 0 = some r ∧ Reading Q s r

variable {P : L.State -> List (Payload m Word) -> Prop}
variable {Q : R.State -> List (ReadResult W m Word) -> Option Nat -> Prop}

theorem readLog_eq {queue : RelaxedSystem cap m Word}
    {r : RelaxedReader cap m Word} (hr : queue.readers 0 = some r) :
    readLog queue = r.reader.log := by
  rw [readLog, hr]

namespace Reading

variable {r r' : RelaxedReader cap m Word}

theorem of_producer (hr : Reading Q s r) (hconsumer : s'.consumer = s.consumer)
    (htold : s'.told = s.told) (hstored : s.stored = true -> s'.stored = true)
    (hpublished : s.stored = true -> s'.queue.published = s.queue.published) :
    Reading Q s' r := by
  constructor
  · exact hr.start
  · rw [hconsumer, htold]
    exact hr.consumer
  · rw [hconsumer]
    exact hr.call
  · intro k hk
    rw [htold] at hk
    rcases hr.told k hk with ⟨hs, hle⟩
    rw [hpublished hs]
    exact ⟨hstored hs, hle⟩
  · intro k e hk he hempty hlag
    rw [htold] at hk
    rw [hpublished (hr.told k hk).left]
    exact hr.ended k e hk he hempty hlag

theorem of_log (hr : Reading Q s r)
    (hstart : r'.reader.start = r.reader.start)
    (hlog : r'.reader.log = r.reader.log)
    (hcurrent : r.view.current ≤ r'.view.current)
    (hconsumer : Q s'.consumer (r.reader.log.map ReadRecord.result) s'.told)
    (hcall : r'.reader.thread.pc ≠ ReadPc.idle -> R.reads s'.consumer = true)
    (htold : s'.told = s.told) (hstored : s'.stored = s.stored)
    (hpublished : s'.queue.published = s.queue.published) : Reading Q s' r' := by
  refine ⟨hstart.trans hr.start, ?_, hcall, ?_, ?_⟩
  · rw [hlog]
    exact hconsumer
  · intro k hk
    rw [htold] at hk
    rw [hstored, hpublished]
    rcases hr.told k hk with ⟨hs, hle⟩
    exact ⟨hs, Nat.le_trans hle (hcurrent Spmc.Place.writeCursor)⟩
  · rw [hlog, htold, hpublished]
    exact hr.ended

end Reading

namespace Stream

theorem start [Zero Word] (hP : P L.start []) (hQ : R.Keeps Q) :
    Stream P Q (SpmcThreads.start cap L R) where
  producer := Publishing.between rfl hP
  stored := by
    intro habsurd
    cases habsurd
  reader := by
    refine ⟨⟨Reader.new W m Word, ThreadView.start _, 0⟩, rfl, rfl, hQ.start,
      ?_, ?_, ?_⟩
    · intro hbusy
      exact absurd rfl hbusy
    · intro k habsurd
      cases habsurd
    · intro k e habsurd
      cases habsurd

theorem not_stored_of_offer (hs : Stream P Q s) {item : Payload m Word}
    (hoffer : L.offer s.producer = some item) : s.stored ≠ true := by
  intro hstored
  rw [(L.ends _ (hs.stored hstored)).left] at hoffer
  cases hoffer

theorem producerClock (hs : Stream P Q s) (hP : L.Publishes P) {tsc : BitVec 64}
    (h : s.producerClock tsc = some s') : Stream P Q s' := by
  rcases producerClock_inv h with ⟨p, hp, hidle, rfl⟩
  have hnot : s.stored ≠ true := by
    intro hstored
    rw [(L.ends _ (hs.stored hstored)).right] at hp
    cases hp
  rcases hs.reader with ⟨r, hr, hreading⟩
  refine ⟨?_, fun hstored => absurd hstored hnot, r, hr, ?_⟩
  · cases hs.producer with
    | between _ hold => exact Publishing.between hidle (hP.clock _ _ _ _ hold hp)
    | during _ _ hbusy => exact absurd hidle hbusy
  · exact hreading.of_producer rfl rfl id (fun _ => rfl)

theorem publish (hs : Stream P Q s) {n : Nat} (h : s.publish n = some s') :
    Stream P Q s' := by
  rcases publish_inv h with ⟨item, q, hoffer, hq, rfl⟩
  rcases RelaxedSystem.publishCall_inv hq with ⟨msg, hidle, _, rfl⟩
  have hnot := hs.not_stored_of_offer hoffer
  rcases hs.reader with ⟨r, hr, hreading⟩
  refine ⟨?_, hs.stored, r, hr, ?_⟩
  · cases hs.producer with
    | between _ hp =>
        exact Publishing.during s.queue.published item
          (by intro heq; cases heq) hp hoffer rfl
    | during _ _ hbusy => exact absurd hidle hbusy
  · exact hreading.of_producer rfl rfl id
      (fun hstored => absurd hstored hnot)

theorem publishStep (hs : Stream P Q s) (hP : L.Publishes P)
    {a : RelaxedAction m Word} (h : s.publishStep a = some s') :
    Stream P Q s' := by
  rcases publishStep_inv h with
    ⟨q, hq, hreaders, hpublished, hbusy, hcase⟩
  rcases hs.reader with ⟨r, hr, hreading⟩
  cases hs.producer with
  | between hidle _ => exact absurd hidle hbusy
  | during accepted item _ hp hoffer haccepted =>
      have hnot := hs.not_stored_of_offer hoffer
      rcases hcase with ⟨hpc, rfl⟩ | ⟨hpc, rfl⟩
      · refine ⟨?_, hs.stored, r, (congrFun hreaders 0).trans hr, ?_⟩
        · exact Publishing.during accepted item hpc hp hoffer
            (hpublished.trans haccepted)
        · exact hreading.of_producer rfl rfl id (fun _ => hpublished)
      · refine ⟨?_, fun hstored => absurd hstored hnot, r,
          (congrFun hreaders 0).trans hr, ?_⟩
        · apply Publishing.between hpc
          show P _ q.published
          rw [hpublished, haccepted]
          exact hP.published _ _ _ hp hoffer
        · exact hreading.of_producer rfl rfl id (fun _ => hpublished)

theorem storeDone (hs : Stream P Q s) (h : s.storeDone = some s') :
    Stream P Q s' := by
  rcases storeDone_inv h with ⟨hfinished, rfl⟩
  rcases hs.reader with ⟨r, hr, hreading⟩
  refine ⟨?_, fun _ => hfinished, r, hr, ?_⟩
  · cases hs.producer with
    | between hpc hp => exact Publishing.between hpc hp
    | during accepted item hpc hp hoffer hpublished =>
        exact Publishing.during accepted item hpc hp hoffer hpublished
  · exact hreading.of_producer rfl rfl (fun _ => rfl) (fun _ => rfl)

theorem of_consumer (hs : Stream P Q s) {r : RelaxedReader cap m Word}
    (hpc : s'.queue.publishPc = s.queue.publishPc)
    (hpublished : s'.queue.published = s.queue.published)
    (hproducer : s'.producer = s.producer) (hstored : s'.stored = s.stored)
    (hr : s'.queue.readers 0 = some r) (hreading : Reading Q s' r) :
    Stream P Q s' := by
  refine ⟨?_, ?_, r, hr, hreading⟩
  · cases hs.producer with
    | between hidle hp =>
        apply Publishing.between (hpc.trans hidle)
        rw [hproducer, hpublished]
        exact hp
    | during accepted item hbusy hp hoffer hold =>
        refine Publishing.during accepted item ?_ ?_ ?_
          (hpublished.trans hold)
        · rw [hpc]
          exact hbusy
        · rw [hproducer]
          exact hp
        · rw [hproducer]
          exact hoffer
  · rw [hstored, hproducer]
    exact hs.stored

theorem consumerClock (hs : Stream P Q s) (hQ : R.Keeps Q) {tsc : BitVec 64}
    (h : s.consumerClock tsc = some s') : Stream P Q s' := by
  rcases consumerClock_inv h with ⟨c, hc, rfl⟩
  rcases hs.reader with ⟨r, hr, hreading⟩
  refine hs.of_consumer rfl rfl rfl rfl hr ?_
  refine hreading.of_log rfl rfl (le_refl _)
    (hQ.clock _ _ _ _ _ hreading.consumer hc) ?_ rfl rfl rfl
  intro hbusy
  rw [(R.waits _ (hreading.call hbusy)).right] at hc
  cases hc

theorem read (hs : Stream P Q s) (h : s.read = some s') : Stream P Q s' := by
  rcases read_inv h with ⟨r, r', hreads, hr, hstep, rfl⟩
  rcases hs.reader with ⟨r₀, hr₀, hreading⟩
  have heq : r₀ = r := Option.some.inj (hr₀.symm.trans hr)
  rw [heq] at hreading
  have hcurrent := RelaxedSystem.readStep_current_le hstep
  rcases RelaxedSystem.call_inv hstep with ⟨reader, hcall, rfl⟩
  rcases Reader.beginCall_inv hcall with ⟨_, rfl⟩
  refine hs.of_consumer rfl rfl rfl rfl
    (readers_setReader_self s.queue 0 _) ?_
  exact hreading.of_log rfl rfl hcurrent hreading.consumer (fun _ => hreads) rfl
    rfl rfl

/-- An empty ring that a told consumer finds is the end of the stream. -/
theorem readStep [Zero Word] (hs : Stream P Q s) (hQ : R.Keeps Q)
    (hreach : (relaxedMachine cap m Word).Reachable s.queue)
    {a : RelaxedReadAction m} (h : s.readStep a = some s') :
    Stream P Q s' := by
  rcases readStep_inv h with ⟨r, r', hr, hstep, hbusy, hstart, hcase⟩
  rcases hs.reader with ⟨r₀, hr₀, hreading⟩
  have heq : r₀ = r := Option.some.inj (hr₀.symm.trans hr)
  rw [heq] at hreading
  have hcurrent := RelaxedSystem.readStep_current_le hstep
  have hreads := hreading.call hbusy
  rcases hcase with ⟨hlog, rfl⟩ | ⟨e, hidle, hlog, hprogress, rfl⟩
  · refine hs.of_consumer rfl rfl rfl rfl
      (readers_setReader_self s.queue 0 r') ?_
    exact hreading.of_log hstart hlog hcurrent hreading.consumer
      (fun _ => hreads) rfl rfl rfl
  · refine hs.of_consumer rfl rfl rfl rfl
      (readers_setReader_self s.queue 0 r')
      ⟨hstart.trans hreading.start, ?_, ?_, ?_, ?_⟩
    · rw [hlog, List.map_append]
      exact hQ.answered _ _ _ _ hreading.consumer hreads
    · intro habsurd
      exact absurd hidle habsurd
    · intro k hk
      rcases hreading.told k hk with ⟨hstored, hle⟩
      exact ⟨hstored, Nat.le_trans hle (hcurrent Spmc.Place.writeCursor)⟩
    · intro k e' hk he' hempty hlag
      rw [hlog, List.drop_append] at he'
      rcases List.mem_append.mp he' with hold | hnew
      · exact hreading.ended k e' hk hold hempty hlag
      · rw [List.mem_singleton.mp (List.mem_of_mem_drop hnew)] at hempty hlag ⊢
        have hlast : r'.reader.log[r.reader.log.length]? = some e := by
          rw [hlog, List.getElem?_concat_length]
        rw [hprogress] at hlag
        exact Nat.le_trans (hreading.told k hk).right
          (RelaxedSystem.current_le_of_empty hreach hr hstep hlast hempty hlag)

theorem loadDone [Zero Word] (hs : Stream P Q s) (hQ : R.Keeps Q)
    (hreach : (relaxedMachine cap m Word).Reachable s.queue) {answer : Bool}
    (h : s.loadDone answer = some s') : Stream P Q s' := by
  rcases hs.reader with ⟨r, hr, hreading⟩
  rcases loadDone_inv h with ⟨hasks, ⟨_, rfl⟩ | ⟨q, hstored, hq, rfl⟩⟩
  · refine hs.of_consumer rfl rfl rfl rfl hr ?_
    refine hreading.of_log rfl rfl (le_refl _)
      (hQ.missed _ _ _ hreading.consumer hasks) ?_ rfl rfl rfl
    intro hbusy
    rw [(R.waits _ (hreading.call hbusy)).left] at hasks
    cases hasks
  · rcases RelaxedSystem.hear_inv hq with ⟨r₀, view, hr₀, htold, hidle, rfl⟩
    have heq : r = r₀ := Option.some.inj (hr.symm.trans hr₀)
    rw [← heq] at hidle ⊢
    refine hs.of_consumer rfl rfl rfl rfl
      (readers_setReader_self s.queue 0 _)
      ⟨hreading.start, ?_, ?_, ?_, ?_⟩
    · have hfound := hQ.found _ _ _ hreading.consumer hasks
      rw [List.length_map] at hfound
      rw [readLog_eq hr]
      exact hfound
    · intro habsurd
      exact absurd hidle habsurd
    · intro k _
      refine ⟨hstored, ?_⟩
      have hpublishing : s.queue.publishPc = PublishPc.idle := by
        rcases RelaxedSystem.told_inv htold with ⟨_, hpc, _⟩ | ⟨_, _, habsurd, _⟩
        · exact hpc
        · cases habsurd
      calc s.queue.published.length
          = s.queue.completed := by
            rw [(RelaxedSystem.Stores.reachable hreach).length, hpublishing]
            rfl
        _ ≤ view Spmc.Place.writeCursor :=
            RelaxedSystem.behind_le_told hreach htold
        _ ≤ (r.view.hear view).current Spmc.Place.writeCursor :=
            Nat.le_max_right _ _
    · intro k e hk he
      cases hk
      rw [readLog_eq hr, List.drop_length] at he
      cases he

theorem step [Zero Word] (hs : Stream P Q s) (hP : L.Publishes P)
    (hQ : R.Keeps Q) (hreach : (relaxedMachine cap m Word).Reachable s.queue)
    {a : SpmcThreadAction m Word} (h : s.step a = some s') :
    Stream P Q s' := by
  cases a with
  | producerClock tsc => exact hs.producerClock hP h
  | publish n => exact hs.publish h
  | publishStep a => exact hs.publishStep hP h
  | storeDone => exact hs.storeDone h
  | consumerClock tsc => exact hs.consumerClock hQ h
  | read => exact hs.read h
  | readStep a => exact hs.readStep hQ hreach h
  | loadDone answer => exact hs.loadDone hQ hreach h

theorem reachable [Zero Word] (hP : L.Publishes P) (hQ : R.Keeps Q)
    (hs : (spmcThreads cap L R).Reachable s) : Stream P Q s :=
  hs.invariant_of_reachable (Stream.start hP.start hQ)
    (fun _ _ _ hreach hstream h =>
      hstream.step hP hQ (queue_reachable hreach) h)

end Stream

end SpmcThreads

end Bench
end LowLatency
