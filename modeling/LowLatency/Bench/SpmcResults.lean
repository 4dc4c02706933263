import LowLatency.Bench.SpmcStream

/-!
# The results of the SPMC handoff bench

The bench accounts for all `n` positions: each was read as a value, with its
latency, or lies in a reported skipped count.
-/

namespace LowLatency
namespace Bench

open Foundation Spmc

variable {W m : Nat} {Word : Type}

/-!
## Answers
-/

/-- The answers that a bench counts: all but `Empty`. -/
def heard (answers : List (ReadResult W m Word)) :
    List (ReadResult W m Word) :=
  answers.filter (fun a => a.value?.isSome || a.skipped?.isSome)

def values (answers : List (ReadResult W m Word)) : List (Payload m Word) :=
  answers.filterMap ReadResult.value?

def skips (answers : List (ReadResult W m Word)) : List Nat :=
  answers.filterMap (fun a => a.skipped?.map BitVec.toNat)

def recorded (warmup : Nat) (answers : List (ReadResult W m Word)) :
    List (ReadResult W m Word) :=
  (heard answers).drop warmup

theorem heard_value (answers : List (ReadResult W m Word))
    (v : Payload m Word) :
    heard (answers ++ [ReadResult.value v]) =
      heard answers ++ [ReadResult.value v] := by
  simp [heard, ReadResult.value?]

theorem heard_lapped (answers : List (ReadResult W m Word)) (k : BitVec W) :
    heard (answers ++ [ReadResult.lapped k]) =
      heard answers ++ [ReadResult.lapped k] := by
  simp [heard, ReadResult.skipped?]

theorem heard_empty (answers : List (ReadResult W m Word)) :
    heard (answers ++ [ReadResult.empty]) = heard answers := by
  simp [heard, ReadResult.value?, ReadResult.skipped?]

theorem drop_concat {T : Type _} (xs : List T) (x : T) (k : Nat) :
    (xs ++ [x]).drop k =
      if k ≤ xs.length then xs.drop k ++ [x] else xs.drop k := by
  split
  · rename_i hle
    exact List.drop_append_of_le_length hle
  · rename_i hlt
    have hlength : (xs ++ [x]).length ≤ k := by
      rw [List.length_append]
      exact Nat.lt_of_not_le hlt
    rw [List.drop_eq_nil_of_le hlength,
      List.drop_eq_nil_of_le (Nat.le_of_not_le hlt)]

theorem recorded_heard {warmup : Nat}
    {answers answers' : List (ReadResult W m Word)}
    {a : ReadResult W m Word} (h : heard answers' = heard answers ++ [a]) :
    recorded warmup answers' =
      if warmup ≤ (heard answers).length then recorded warmup answers ++ [a]
      else recorded warmup answers := by
  rw [recorded, h, drop_concat]
  rfl

theorem recorded_empty (warmup : Nat)
    (answers : List (ReadResult W m Word)) :
    recorded warmup (answers ++ [ReadResult.empty]) =
      recorded warmup answers := by
  rw [recorded, heard_empty]
  rfl

theorem values_append (first second : List (ReadResult W m Word)) :
    values (first ++ second) = values first ++ values second :=
  List.filterMap_append

theorem skips_append (first second : List (ReadResult W m Word)) :
    skips (first ++ second) = skips first ++ skips second :=
  List.filterMap_append

/-!
## The producer loop
-/

/-- The items are those of the finished rounds, and the one that is being paced. -/
structure PacedLoop.Counted (n : Nat) (p : PacedLoop)
    (published : List (Payload 1 (BitVec 64))) : Prop where
  length : published.length = p.i +
    match p.pc with
    | PacedPc.pacing _ => 1
    | _ => 0
  le : p.i ≤ n
  more : p.pc ≠ PacedPc.stamping -> p.i < n

theorem PacedLoop.publishes (n : Nat) (pace : BitVec 64) :
    (pacedLoop n pace).Publishes (PacedLoop.Counted n) where
  start := ⟨rfl, Nat.zero_le n, fun habsurd => absurd rfl habsurd⟩
  clock := by
    rintro ⟨i, pc⟩ published tsc p' hp h
    change PacedLoop.clock n ⟨i, pc⟩ tsc = some p' at h
    unfold PacedLoop.clock at h
    cases pc with
    | stamping =>
        simp only at h
        split at h
        · rename_i hlt
          rw [← Option.some.inj h]
          exact ⟨hp.length, hp.le, fun _ => hlt⟩
        · cases h
    | publishing ts => cases h
    | pacing stop =>
        have hlt := hp.more (by intro heq; cases heq)
        simp only at h
        split at h
        · rw [← Option.some.inj h]
          exact hp
        · rw [← Option.some.inj h]
          exact ⟨hp.length, hlt, fun habsurd => absurd rfl habsurd⟩
  published := by
    rintro ⟨i, pc⟩ published item hp hoffer
    change PacedLoop.offer ⟨i, pc⟩ = some item at hoffer
    cases pc with
    | stamping => cases hoffer
    | pacing stop => cases hoffer
    | publishing ts =>
        have hlt := hp.more (by intro heq; cases heq)
        have hlength : (published ++ [item]).length = i + 1 := by
          rw [List.length_append, hp.length]
          rfl
        have hanswered : (pacedLoop n pace).answered
            (⟨i, PacedPc.publishing ts⟩ : PacedLoop) none =
            if 0 < pace then (⟨i, PacedPc.pacing (ts + pace)⟩ : PacedLoop)
            else ⟨i + 1, PacedPc.stamping⟩ := rfl
        rw [hanswered]
        split
        · exact ⟨hlength, hp.le, fun _ => hlt⟩
        · exact ⟨hlength, hlt, fun habsurd => absurd rfl habsurd⟩

/-!
## The latencies of the handoff bench
-/

def latency (v : Payload 1 (BitVec 64)) (now : BitVec 64) : BitVec 64 :=
  now - v (Fin.last 0)

/--
There is a reading of the clock for each value, and a sample for each value
after the warmup.
-/
def Sampled (warmup : Nat) (answers : List (ReadResult W 1 (BitVec 64)))
    (clocks hist : List (BitVec 64)) : Prop :=
  clocks.length = (values answers).length ∧
    exists early late, clocks = early ++ late ∧
      late.length = (values (recorded warmup answers)).length ∧
      hist = List.zipWith latency (values (recorded warmup answers)) late

namespace Sampled

variable {warmup : Nat} {answers answers' : List (ReadResult W 1 (BitVec 64))}
variable {clocks hist : List (BitVec 64)}

theorem of_values (h : Sampled warmup answers clocks hist)
    (hvalues : values answers' = values answers)
    (hrecorded : values (recorded warmup answers') =
      values (recorded warmup answers)) :
    Sampled warmup answers' clocks hist := by
  rw [Sampled, hvalues, hrecorded]
  exact h

theorem empty (h : Sampled warmup answers clocks hist) :
    Sampled warmup (answers ++ [ReadResult.empty]) clocks hist := by
  apply h.of_values
  · rw [values_append]
    exact List.append_nil _
  · rw [recorded_empty]

theorem lapped (h : Sampled warmup answers clocks hist) (k : BitVec W) :
    Sampled warmup (answers ++ [ReadResult.lapped k]) clocks hist := by
  apply h.of_values
  · rw [values_append]
    exact List.append_nil _
  · rw [recorded_heard (heard_lapped answers k)]
    split
    · rw [values_append]
      exact List.append_nil _
    · rfl

theorem value (h : Sampled warmup answers clocks hist)
    (v : Payload 1 (BitVec 64)) (now : BitVec 64) :
    Sampled warmup (answers ++ [ReadResult.value v]) (clocks ++ [now])
      (if warmup ≤ (heard answers).length then hist ++ [latency v now]
        else hist) := by
  rcases h with ⟨hclocks, early, late, hsplit, hlate, hhist⟩
  constructor
  · rw [values_append, List.length_append, List.length_append, hclocks]
    rfl
  · rw [recorded_heard (heard_value answers v)]
    split
    · refine ⟨early, late ++ [now], ?_, ?_, ?_⟩
      · rw [hsplit, List.append_assoc]
      · rw [values_append, List.length_append, List.length_append, hlate]
        rfl
      · rw [values_append, List.zipWith_append hlate.symm, hhist]
        rfl
    · rename_i hcold
      have hnone : recorded warmup answers = [] :=
        List.drop_eq_nil_of_le (Nat.le_of_not_le hcold)
      rw [hnone] at hlate hhist
      have hnil : late = [] := List.length_eq_zero_iff.mp hlate
      refine ⟨early ++ [now], [], ?_, ?_, ?_⟩
      · rw [hsplit, hnil]
        simp
      · rw [hnone]
        rfl
      · rw [hhist, hnone]
        rfl

end Sampled

namespace LatencyLoop

def pending : LatencyPc -> List (ReadResult W 1 (BitVec 64))
  | LatencyPc.recording _ ts => [ReadResult.value (word64 ts)]
  | _ => []

/-- The loop after `done` was found set; it ends with an empty ring. -/
def Phase (answers : List (ReadResult W 1 (BitVec 64))) (told : Option Nat) :
    LatencyPc -> Prop
  | LatencyPc.polling drains => drains = told.isSome
  | LatencyPc.recording drains _ => drains = told.isSome
  | LatencyPc.loadDone => told = none
  | LatencyPc.finished =>
      exists k, told = some k ∧ ReadResult.empty ∈ answers.drop k

structure Follows (warmup : Nat) (c : LatencyLoop)
    (answers : List (ReadResult W 1 (BitVec 64))) (told : Option Nat) :
    Prop where
  settled : exists settled, answers = settled ++ pending c.pc ∧
    c.seen = (heard settled).length ∧ Sampled warmup settled c.clocks c.hist
  bound : forall k, told = some k -> k ≤ answers.length
  phase : Phase answers told c.pc

theorem word64_zero (v : Payload 1 (BitVec 64)) : word64 (v (Fin.last 0)) = v := by
  funext i
  rw [Subsingleton.elim i 0]
  rfl

theorem clock_inv {warmup : Nat} {c c' : LatencyLoop} {now : BitVec 64}
    (h : c.clock warmup now = some c') :
    exists drains ts, c.pc = LatencyPc.recording drains ts ∧ c' =
      { seen := c.seen + 1
        clocks := c.clocks ++ [now]
        hist := if warmup ≤ c.seen then c.hist ++ [now - ts] else c.hist
        pc := LatencyPc.polling drains } := by
  unfold clock at h
  split at h
  · rename_i drains ts hpc
    exact ⟨drains, ts, hpc, (Option.some.inj h).symm⟩
  · cases h

variable {warmup : Nat} {c c' : LatencyLoop}
variable {answers : List (ReadResult W 1 (BitVec 64))} {told : Option Nat}

theorem Follows.clock (hc : Follows warmup c answers told) {now : BitVec 64}
    (h : c.clock warmup now = some c') : Follows warmup c' answers told := by
  rcases clock_inv h with ⟨drains, ts, hpc, rfl⟩
  rcases hc.settled with ⟨settled, hanswers, hseen, hsampled⟩
  have hphase := hc.phase
  rw [hpc] at hanswers hphase
  refine ⟨⟨answers, (List.append_nil _).symm, ?_, ?_⟩, hc.bound, hphase⟩
  · show c.seen + 1 = _
    rw [hanswers, hseen, pending, heard_value, List.length_append]
    rfl
  · rw [hanswers, hseen]
    exact hsampled.value (word64 ts) now

theorem Follows.answered (hc : Follows warmup c answers told)
    {result : ReadResult W 1 (BitVec 64)} (hreads : c.reads = true) :
    Follows warmup (c.answered result) (answers ++ [result]) told := by
  rcases c with ⟨seen, clocks, hist, pc⟩
  cases pc with
  | recording | loadDone | finished => cases hreads
  | polling drains =>
      rcases hc.settled with ⟨settled, hanswers, hseen, hsampled⟩
      have hall : answers = settled := hanswers.trans (List.append_nil _)
      have hdrains : drains = told.isSome := hc.phase
      have hbound : forall k, told = some k ->
          k ≤ (answers ++ [result]).length := by
        intro k hk
        rw [List.length_append]
        exact Nat.le_add_right_of_le (hc.bound k hk)
      rw [← hall] at hseen hsampled
      cases result with
      | value v =>
          refine ⟨⟨answers, ?_, hseen, hsampled⟩, hbound, hdrains⟩
          show _ = answers ++ [ReadResult.value (word64 (v (Fin.last 0)))]
          rw [word64_zero]
      | lapped k =>
          refine ⟨⟨answers ++ [ReadResult.lapped k],
            (List.append_nil _).symm, ?_, hsampled.lapped k⟩, hbound, hdrains⟩
          show seen + 1 = _
          rw [heard_lapped, List.length_append]
          exact congrArg (fun n => n + 1) hseen
      | empty =>
          cases drains with
          | false =>
              refine ⟨⟨answers ++ [ReadResult.empty],
                (List.append_nil _).symm, ?_, hsampled.empty⟩, hbound, ?_⟩
              · rw [heard_empty]
                exact hseen
              · apply Option.not_isSome_iff_eq_none.mp
                rw [← hdrains]
                exact Bool.false_ne_true
          | true =>
              refine ⟨⟨answers ++ [ReadResult.empty],
                (List.append_nil _).symm, ?_, hsampled.empty⟩, hbound, ?_⟩
              · rw [heard_empty]
                exact hseen
              · rcases Option.isSome_iff_exists.mp hdrains.symm with ⟨k, hk⟩
                refine ⟨k, hk, ?_⟩
                rw [List.drop_append_of_le_length (hc.bound k hk)]
                simp

theorem follows (W warmup : Nat) :
    (latencyLoop W warmup).Keeps (Follows warmup) where
  start := by
    refine ⟨⟨[], rfl, rfl, rfl, [], [], rfl, ?_, ?_⟩, ?_, rfl⟩
    · simp [recorded, heard, values]
    · simp [recorded, heard, values, latencyLoop]
    · intro k habsurd
      cases habsurd
  clock := fun _ _ _ _ _ hc h => Follows.clock hc h
  answered := fun _ _ _ _ hc h => Follows.answered hc h
  missed := by
    rintro ⟨seen, clocks, hist, pc⟩ answers told hc hasks
    have hpc : pc = LatencyPc.loadDone := beq_iff_eq.mp hasks
    have hphase := hc.phase
    rcases hc.settled with ⟨settled, hanswers, hseen, hsampled⟩
    rw [hpc] at hanswers hphase
    have htold : told = none := hphase
    refine ⟨⟨settled, hanswers, hseen, hsampled⟩, hc.bound, ?_⟩
    show false = told.isSome
    rw [htold]
    rfl
  found := by
    rintro ⟨seen, clocks, hist, pc⟩ answers told hc hasks
    have hpc : pc = LatencyPc.loadDone := beq_iff_eq.mp hasks
    rcases hc.settled with ⟨settled, hanswers, hseen, hsampled⟩
    rw [hpc] at hanswers
    refine ⟨⟨settled, hanswers, hseen, hsampled⟩, ?_, rfl⟩
    intro k hk
    rw [← Option.some.inj hk]

end LatencyLoop

namespace SpmcThreads

variable {cap : Capacity W} {L : PushLoop (Payload m Word)}
variable {R : ReadLoop W m Word}

/-!
## Accounting
-/

def answers (s : SpmcThreads cap L R) : List (ReadResult W m Word) :=
  (readLog s.queue).map ReadRecord.result

/-- No read ended when the producer was half a turn of the counters ahead. -/
def LagBelowHalf (s : SpmcThreads cap L R) : Prop :=
  forall e, e ∈ readLog s.queue ->
    e.progress.begun ≤ e.position + 2 ^ (W - 1)

theorem half_lt (cap : Capacity W) : 2 ^ (W - 1) < 2 ^ W :=
  Nat.pow_lt_pow_right Nat.one_lt_two (Nat.sub_one_lt_of_lt cap.width_pos)

variable [Zero Word] {s : SpmcThreads cap L R}
variable {P : L.State -> List (Payload m Word) -> Prop}
variable {Q : R.State -> List (ReadResult W m Word) -> Option Nat -> Prop}

theorem recordOk (hs : (spmcThreads cap L R).Reachable s)
    {e : ReadRecord W m Word} (he : e ∈ readLog s.queue) :
    RelaxedSystem.RecordOk cap s.queue.published e := by
  unfold readLog at he
  split at he
  · rename_i r hr
    exact (RelaxedSystem.Readers.reachable (queue_reachable hs) 0 r hr).log e he
  · cases he

theorem LagBelowHalf.completed_lt (hlag : s.LagBelowHalf)
    (hs : (spmcThreads cap L R).Reachable s)
    {e : ReadRecord W m Word} (he : e ∈ readLog s.queue) :
    e.progress.completed < e.position + 2 ^ W := by
  have hbegun := hlag e he
  rcases (recordOk hs he).progress with ⟨hcompleted, hstamped⟩
  have hhalf := half_lt cap
  lia

/-- The reads chain up from the first position. -/
theorem Stream.chained (hstream : Stream P Q s)
    (hs : (spmcThreads cap L R).Reachable s) (hlag : s.LagBelowHalf) :
    exists position, Chained 0 (readLog s.queue) position ∧
      position ≤ s.queue.published.length := by
  have hq := queue_reachable hs
  rcases hstream.reader with ⟨r, hr, hreading⟩
  have hlog := readLog_eq hr
  have hok := RelaxedSystem.Readers.reachable hq 0 r hr
  have hchained := hok.accounted
    (fun e he => hlag.completed_lt hs (by rw [hlog]; exact he))
  rw [hreading.start, ← hlog] at hchained
  refine ⟨r.reader.position, hchained, ?_⟩
  calc r.reader.position
      ≤ r.view.current Spmc.Place.writeCursor :=
        Nat.le_trans hok.cursors.position_le hok.cursors.cached_le
    _ ≤ s.queue.completed := hok.knows.current Spmc.Place.writeCursor
    _ ≤ s.queue.published.length := by
        rw [(RelaxedSystem.Stores.reachable hq).length]
        exact Nat.le_add_right _ _

/-- After an empty ring that was found when told, all positions are covered. -/
theorem Stream.complete (hstream : Stream P Q s)
    (hs : (spmcThreads cap L R).Reachable s) (hlag : s.LagBelowHalf) {k : Nat}
    (htold : s.told = some k)
    (hempty : ReadResult.empty ∈ s.answers.drop k) :
    valueCount (readLog s.queue) + skippedSum (readLog s.queue) =
      s.queue.published.length := by
  rcases hstream.chained hs hlag with ⟨position, hchained, hle⟩
  rcases hstream.reader with ⟨r, hr, hreading⟩
  have hlog := readLog_eq hr
  rw [answers, ← List.map_drop] at hempty
  rcases List.mem_map.mp hempty with ⟨e, he, hresult⟩
  have hmem := List.mem_of_mem_drop he
  have hend := hreading.ended k e htold (by rw [← hlog]; exact he) hresult
    (hlag.completed_lt hs hmem)
  have hcovered : e.position ≤ position := by
    rcases List.append_of_mem hmem with ⟨before, after, hsplit⟩
    rw [hsplit] at hchained
    rcases Chained.append_iff.mp hchained with ⟨_, _, _, hafter⟩
    have hnext := hafter.le
    rw [ReadRecord.next, hresult] at hnext
    exact hnext
  have htotal := hchained.total
  lia

/-!
## Handoff
-/

variable {n warmup : Nat} {pace : BitVec 64}

/--
When the consumer thread of `run_spmc_handoff` has ended, each of the `n`
positions was either read as the value published there, once and in order, or
counted as skipped.  `seen` counts the answers, and the samples are the latencies
of the values after the first `warmup` answers.
-/
theorem spmc_handoff_complete
    {s : SpmcThreads cap (pacedLoop n pace) (latencyLoop W warmup)}
    (hs : (runSpmcHandoff cap n warmup pace).Reachable s)
    (hpc : s.consumer.pc = LatencyPc.finished) (hlag : s.LagBelowHalf) :
    s.queue.published.length = n ∧
      valueCount (readLog s.queue) + skippedSum (readLog s.queue) = n ∧
      (valuePositions (readLog s.queue)).Pairwise (fun p q => p < q) ∧
      (forall e v, e ∈ readLog s.queue -> e.result = ReadResult.value v ->
        s.queue.published[e.position]? = some v) ∧
      s.consumer.seen = (heard s.answers).length ∧
      Sampled warmup s.answers s.consumer.clocks s.consumer.hist := by
  have hstream := Stream.reachable (PacedLoop.publishes n pace)
    (LatencyLoop.follows W warmup) hs
  rcases hstream.reader with ⟨r, hr, hreading⟩
  have hfollows : LatencyLoop.Follows warmup s.consumer s.answers s.told := by
    rw [answers, readLog_eq hr]
    exact hreading.consumer
  have hphase := hfollows.phase
  rcases hfollows.settled with ⟨settled, hanswers, hseen, hsampled⟩
  rw [hpc] at hanswers hphase
  have hall : s.answers = settled := hanswers.trans (List.append_nil _)
  rcases hphase with ⟨k, hk, hempty⟩
  have hstored := (hreading.told k hk).left
  have hcounted : s.queue.published.length = n := by
    have hfinished : PacedLoop.finished n s.producer = true :=
      hstream.stored hstored
    rcases Bool.and_eq_true_iff.mp hfinished with ⟨hstamping, hi⟩
    cases hstream.producer with
    | between _ hp =>
        rw [hp.length, beq_iff_eq.mp hstamping]
        exact beq_iff_eq.mp hi
    | during _ _ _ _ hoffer =>
        exact absurd hstored (hstream.not_stored_of_offer hoffer)
  have htotal := hstream.complete hs hlag hk hempty
  rcases hstream.chained hs hlag with ⟨position, hchained, _⟩
  refine ⟨hcounted, htotal.trans hcounted, hchained.positions_increasing, ?_, ?_,
    ?_⟩
  · intro e v he hvalue
    exact (recordOk hs he).value v hvalue (hlag e he)
  · rw [hall]
    exact hseen
  · rw [hall]
    exact hsampled

def publishSteps : List (SpmcThreadAction 1 (BitVec 64)) :=
  [SpmcThreadAction.publishStep RelaxedAction.publishStoreOdd,
    SpmcThreadAction.publishStep (RelaxedAction.publishWriteWord (Fin.last 0)),
    SpmcThreadAction.publishStep RelaxedAction.publishStoreEven,
    SpmcThreadAction.publishStep RelaxedAction.publishStoreCursor]

/-- An early `Empty`, a lap over the first timestamp, and the second one read. -/
theorem spmc_handoff_complete_lapped :
    exists s, (runSpmcHandoff (⟨1#3, 0, rfl⟩ : Capacity 3) 2 0 5).run
        ([SpmcThreadAction.read,
            SpmcThreadAction.readStep (RelaxedReadAction.loadWriteCursor 0),
            SpmcThreadAction.loadDone false,
            SpmcThreadAction.producerClock 10, SpmcThreadAction.publish 0] ++
          publishSteps ++
          [SpmcThreadAction.producerClock 12,
            SpmcThreadAction.producerClock 15, SpmcThreadAction.read,
            SpmcThreadAction.readStep (RelaxedReadAction.loadWriteCursor 1),
            SpmcThreadAction.producerClock 20, SpmcThreadAction.publish 1] ++
          publishSteps ++
          ([RelaxedReadAction.loadSeq 4,
            RelaxedReadAction.loadWriteCursor 2].map
              SpmcThreadAction.readStep) ++
          [SpmcThreadAction.producerClock 26, SpmcThreadAction.storeDone,
            SpmcThreadAction.read] ++
          ([RelaxedReadAction.loadSeq 4, RelaxedReadAction.loadWord 0 2,
            RelaxedReadAction.loadSeq 4].map SpmcThreadAction.readStep) ++
          [SpmcThreadAction.consumerClock 37, SpmcThreadAction.read,
            SpmcThreadAction.readStep (RelaxedReadAction.loadWriteCursor 2),
            SpmcThreadAction.loadDone true, SpmcThreadAction.read,
            SpmcThreadAction.readStep (RelaxedReadAction.loadWriteCursor 2)]) =
          some s ∧
      s.consumer.hist = [17] ∧ s.consumer.seen = 2 ∧
      s.queue.published.length = 2 ∧
      valueCount (readLog s.queue) + skippedSum (readLog s.queue) = 2 := by
  apply Machine.exists_run_of_map
    (fun s => (s.consumer.pc, s.consumer.hist, s.consumer.seen,
      (readLog s.queue).all (fun e =>
        decide (e.progress.begun ≤ e.position + 2 ^ (3 - 1)))))
    (LatencyPc.finished, [17], 2, true) (by decide +kernel)
  intro s hrun hshown
  simp only [Prod.mk.injEq] at hshown
  rcases hshown with ⟨hpc, hhist, hseen, hall⟩
  have hlag : s.LagBelowHalf := by
    intro e he
    exact of_decide_eq_true (List.all_eq_true.mp hall e he)
  have hcomplete := spmc_handoff_complete ⟨_, hrun⟩ hpc hlag
  exact ⟨hhist, hseen, hcomplete.left, hcomplete.right.left⟩

end SpmcThreads

end Bench
end LowLatency
