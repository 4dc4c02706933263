import Mathlib.Data.BitVec
import LowLatency.Spmc.RelaxedDelivery
import LowLatency.Bench.SpscThreads

/-!
# The threads of the SPMC benches

`run_spmc_handoff`, `measure` of the lapped bench and
`run_spmc_capacity_sweep_one` move the producer and one consumer to two threads.
The producer thread publishes and then stores `done`; the consumer thread reads
until the ring is empty, and then loads `done`.  The threads run on the ring under
weak memory.  A load that finds `done` set makes the consumer hear from the
producer.
-/

namespace LowLatency
namespace Bench

open Foundation Spmc

/-!
## The loops
-/

/-- What a consumer thread does with the answers of `try_read`. -/
structure ReadLoop (W m : Nat) (Word : Type) where
  State : Type
  start : State
  /-- After a reading of the clock. -/
  clock : State -> BitVec 64 -> Option State
  /-- `try_read` is called next. -/
  reads : State -> Bool
  answered : State -> ReadResult W m Word -> State
  /-- `done` is loaded next. -/
  asks : State -> Bool
  loaded : State -> Bool -> State
  finished : State -> Bool
  waits : forall c, reads c = true ->
    asks c = false ∧ forall tsc, clock c tsc = none

/--
`told` is history: the number of answers that were there when `done` was found
set.
-/
structure SpmcThreads {W : Nat} (cap : Capacity W) {m : Nat} {Word : Type}
    (L : PushLoop (Payload m Word)) (R : ReadLoop W m Word) where
  queue : RelaxedSystem cap m Word
  producer : L.State
  stored : Bool
  consumer : R.State
  told : Option Nat

/-- The index of `publish` is that of the store of `write_cursor` that is read. -/
inductive SpmcThreadAction (m : Nat) (Word : Type) where
  | producerClock (tsc : BitVec 64)
  | publish (n : Nat)
  | publishStep (a : RelaxedAction m Word)
  | storeDone
  | consumerClock (tsc : BitVec 64)
  | read
  | readStep (a : RelaxedReadAction m)
  | loadDone (answer : Bool)

def isPublishStep {m : Nat} {Word : Type} : RelaxedAction m Word -> Bool
  | RelaxedAction.publishStoreOdd => true
  | RelaxedAction.publishWriteWord _ => true
  | RelaxedAction.publishStoreEven => true
  | RelaxedAction.publishStoreCursor => true
  | _ => false

def isLoad {m : Nat} : RelaxedReadAction m -> Bool
  | RelaxedReadAction.call => false
  | _ => true

def readLog {W : Nat} {cap : Capacity W} {m : Nat} {Word : Type}
    (queue : RelaxedSystem cap m Word) : List (ReadRecord W m Word) :=
  match queue.readers 0 with
  | some r => r.reader.log
  | none => []

def returned? {W : Nat} {cap : Capacity W} {m : Nat} {Word : Type}
    (queue : RelaxedSystem cap m Word) : Option (ReadResult W m Word) :=
  match queue.readers 0 with
  | some r =>
      match r.reader.thread.pc with
      | ReadPc.idle => r.reader.log.getLast?.map ReadRecord.result
      | _ => none
  | none => none

namespace SpmcThreads

variable {W : Nat} {cap : Capacity W} {m : Nat} {Word : Type}
variable {L : PushLoop (Payload m Word)} {R : ReadLoop W m Word}

def start (cap : Capacity W) [Zero Word] (L : PushLoop (Payload m Word))
    (R : ReadLoop W m Word) : SpmcThreads cap L R where
  queue := RelaxedSystem.new cap m Word
  producer := L.start
  stored := false
  consumer := R.start
  told := none

/-!
## Steps of the producer thread
-/

def producerClock (s : SpmcThreads cap L R) (tsc : BitVec 64) :
    Option (SpmcThreads cap L R) :=
  match s.queue.publishPc with
  | PublishPc.idle =>
      (L.clock s.producer tsc).map (fun producer =>
        { s with producer := producer })
  | _ => none

def publish (s : SpmcThreads cap L R) (n : Nat) :
    Option (SpmcThreads cap L R) :=
  match L.offer s.producer with
  | some item =>
      (s.queue.publishCall item n).map (fun queue => { s with queue := queue })
  | none => none

/-- `try_publish` answers `Ok(())` after the last step of `publish`. -/
def publishStep (s : SpmcThreads cap L R) (a : RelaxedAction m Word) :
    Option (SpmcThreads cap L R) :=
  if isPublishStep a then
    (s.queue.step a).map (fun queue =>
      match queue.publishPc with
      | PublishPc.idle =>
          { s with
            queue := queue
            producer := L.answered s.producer none }
      | _ => { s with queue := queue })
  else none

def storeDone (s : SpmcThreads cap L R) : Option (SpmcThreads cap L R) :=
  if L.finished s.producer && !s.stored then
    some { s with stored := true }
  else none

/-!
## Steps of the consumer thread
-/

def consumerClock (s : SpmcThreads cap L R) (tsc : BitVec 64) :
    Option (SpmcThreads cap L R) :=
  (R.clock s.consumer tsc).map (fun consumer => { s with consumer := consumer })

def read (s : SpmcThreads cap L R) : Option (SpmcThreads cap L R) :=
  if R.reads s.consumer then
    (s.queue.read 0 RelaxedReadAction.call).map (fun queue =>
      { s with queue := queue })
  else none

def readStep (s : SpmcThreads cap L R) (a : RelaxedReadAction m) :
    Option (SpmcThreads cap L R) :=
  if isLoad a then
    (s.queue.read 0 a).map (fun queue =>
      match returned? queue with
      | some result =>
          { s with
            queue := queue
            consumer := R.answered s.consumer result }
      | none => { s with queue := queue })
  else none

/-- A load may miss the store of `done`; one that reads it is an acquire load. -/
def loadDone (s : SpmcThreads cap L R) (answer : Bool) :
    Option (SpmcThreads cap L R) :=
  if R.asks s.consumer then
    match answer with
    | false => some { s with consumer := R.loaded s.consumer false }
    | true =>
        if s.stored then
          (s.queue.hear 0 none).map (fun queue =>
            { s with
              queue := queue
              consumer := R.loaded s.consumer true
              told := some (readLog s.queue).length })
        else none
  else none

def step (s : SpmcThreads cap L R) :
    SpmcThreadAction m Word -> Option (SpmcThreads cap L R)
  | SpmcThreadAction.producerClock tsc => s.producerClock tsc
  | SpmcThreadAction.publish n => s.publish n
  | SpmcThreadAction.publishStep a => s.publishStep a
  | SpmcThreadAction.storeDone => s.storeDone
  | SpmcThreadAction.consumerClock tsc => s.consumerClock tsc
  | SpmcThreadAction.read => s.read
  | SpmcThreadAction.readStep a => s.readStep a
  | SpmcThreadAction.loadDone answer => s.loadDone answer

end SpmcThreads

def spmcThreads {W : Nat} (cap : Capacity W) {m : Nat} {Word : Type}
    [Zero Word] (L : PushLoop (Payload m Word)) (R : ReadLoop W m Word) :
    Machine (SpmcThreads cap L R) (SpmcThreadAction m Word) where
  start := SpmcThreads.start cap L R
  step := SpmcThreads.step

/-!
## The producer loops

All items are one machine word.
-/

def word64 (v : BitVec 64) : Payload 1 (BitVec 64) :=
  fun _ => v

inductive PacedPc where
  | stamping
  | publishing (ts : BitVec 64)
  | pacing (stop : BitVec 64)
deriving DecidableEq, Repr

/-- The producer loop of `run_spmc_handoff`. -/
structure PacedLoop where
  i : Nat
  pc : PacedPc
deriving DecidableEq, Repr

namespace PacedLoop

def clock (n : Nat) (p : PacedLoop) (tsc : BitVec 64) : Option PacedLoop :=
  match p.pc with
  | PacedPc.stamping =>
      if p.i < n then some { p with pc := PacedPc.publishing tsc } else none
  | PacedPc.publishing _ => none
  | PacedPc.pacing stop =>
      if tsc < stop then some p else some ⟨p.i + 1, PacedPc.stamping⟩

def offer (p : PacedLoop) : Option (Payload 1 (BitVec 64)) :=
  match p.pc with
  | PacedPc.publishing ts => some (word64 ts)
  | _ => none

def answered (pace : BitVec 64) (p : PacedLoop)
    (back : Option (Payload 1 (BitVec 64))) : PacedLoop :=
  match p.pc, back with
  | PacedPc.publishing ts, none =>
      if 0 < pace then { p with pc := PacedPc.pacing (ts + pace) }
      else ⟨p.i + 1, PacedPc.stamping⟩
  | _, _ => { p with pc := PacedPc.stamping }

def finished (n : Nat) (p : PacedLoop) : Bool :=
  p.pc == PacedPc.stamping && p.i == n

end PacedLoop

def pacedLoop (n : Nat) (pace : BitVec 64) :
    PushLoop (Payload 1 (BitVec 64)) where
  State := PacedLoop
  start := ⟨0, PacedPc.stamping⟩
  clock := PacedLoop.clock n
  offer := PacedLoop.offer
  answered := PacedLoop.answered pace
  finished := PacedLoop.finished n
  ends p h := by
    rcases Bool.and_eq_true_iff.mp h with ⟨hpc, hi⟩
    have hpc' := beq_iff_eq.mp hpc
    have hi' := beq_iff_eq.mp hi
    constructor
    · rw [PacedLoop.offer, hpc']
    · intro tsc
      rw [PacedLoop.clock, hpc']
      exact if_neg (by rw [hi']; exact Nat.lt_irrefl n)

inductive WindowPc where
  /-- Before `stop_at` is computed. -/
  | starting
  | checking (stopAt : BitVec 64)
  | publishing (stopAt : BitVec 64)
  | closed
deriving DecidableEq, Repr

/-- The producer loop that publishes until its window of time has closed. -/
structure WindowLoop where
  i : BitVec 64
  pc : WindowPc
deriving DecidableEq, Repr

namespace WindowLoop

def clock (runTicks : BitVec 64) (p : WindowLoop) (tsc : BitVec 64) :
    Option WindowLoop :=
  match p.pc with
  | WindowPc.starting =>
      some { p with pc := WindowPc.checking (tsc + runTicks) }
  | WindowPc.checking stopAt =>
      if tsc < stopAt then some { p with pc := WindowPc.publishing stopAt }
      else some { p with pc := WindowPc.closed }
  | _ => none

def offer (p : WindowLoop) : Option (Payload 1 (BitVec 64)) :=
  match p.pc with
  | WindowPc.publishing _ => some (word64 p.i)
  | _ => none

/-- The capacity sweep tries a refused item again, `measure` does not. -/
def answered (retries : Bool) (p : WindowLoop)
    (back : Option (Payload 1 (BitVec 64))) : WindowLoop :=
  match p.pc with
  | WindowPc.publishing stopAt =>
      if retries && back.isSome then p
      else ⟨p.i + 1, WindowPc.checking stopAt⟩
  | _ => p

def finished (p : WindowLoop) : Bool :=
  p.pc == WindowPc.closed

end WindowLoop

def windowLoop (runTicks : BitVec 64) (retries : Bool) :
    PushLoop (Payload 1 (BitVec 64)) where
  State := WindowLoop
  start := ⟨0, WindowPc.starting⟩
  clock := WindowLoop.clock runTicks
  offer := WindowLoop.offer
  answered := WindowLoop.answered retries
  finished := WindowLoop.finished
  ends p h := by
    have hpc := beq_iff_eq.mp h
    constructor
    · rw [WindowLoop.offer, hpc]
    · intro tsc
      rw [WindowLoop.clock, hpc]

/-!
## The consumer loops
-/

inductive LatencyPc where
  | polling (drains : Bool)
  | recording (drains : Bool) (ts : BitVec 64)
  | loadDone
  | finished
deriving DecidableEq, Repr

/--
The consumer loop of `run_spmc_handoff`.  `clocks` is history: the readings of
the clock, one for each value.
-/
structure LatencyLoop where
  seen : Nat
  clocks : List (BitVec 64)
  hist : List (BitVec 64)
  pc : LatencyPc
deriving DecidableEq, Repr

namespace LatencyLoop

variable {W : Nat}

def clock (warmup : Nat) (c : LatencyLoop) (now : BitVec 64) :
    Option LatencyLoop :=
  match c.pc with
  | LatencyPc.recording drains ts =>
      some {
        seen := c.seen + 1
        clocks := c.clocks ++ [now]
        hist := if warmup ≤ c.seen then c.hist ++ [now - ts] else c.hist
        pc := LatencyPc.polling drains }
  | _ => none

def reads (c : LatencyLoop) : Bool :=
  match c.pc with
  | LatencyPc.polling _ => true
  | _ => false

def answered (c : LatencyLoop) (result : ReadResult W 1 (BitVec 64)) :
    LatencyLoop :=
  match c.pc, result with
  | LatencyPc.polling drains, ReadResult.value v =>
      { c with pc := LatencyPc.recording drains (v (Fin.last 0)) }
  | LatencyPc.polling _, ReadResult.lapped _ => { c with seen := c.seen + 1 }
  | LatencyPc.polling drains, ReadResult.empty =>
      { c with
        pc := if drains then LatencyPc.finished else LatencyPc.loadDone }
  | _, _ => c

def asks (c : LatencyLoop) : Bool :=
  c.pc == LatencyPc.loadDone

def loaded (c : LatencyLoop) (done : Bool) : LatencyLoop :=
  { c with pc := LatencyPc.polling done }

def finished (c : LatencyLoop) : Bool :=
  c.pc == LatencyPc.finished

end LatencyLoop

def latencyLoop (W warmup : Nat) : ReadLoop W 1 (BitVec 64) where
  State := LatencyLoop
  start := ⟨0, [], [], LatencyPc.polling false⟩
  clock := LatencyLoop.clock warmup
  reads := LatencyLoop.reads
  answered := LatencyLoop.answered
  asks := LatencyLoop.asks
  loaded := LatencyLoop.loaded
  finished := LatencyLoop.finished
  waits c h := by
    unfold LatencyLoop.reads at h
    split at h
    · rename_i drains hpc
      constructor
      · rw [LatencyLoop.asks, hpc]
        rfl
      · intro tsc
        rw [LatencyLoop.clock, hpc]
    · cases h

/-- What the two timed loops count; the first `warmup` answers are left out. -/
structure Tally where
  seen : Nat
  values : Nat
  lapped : Nat
  valueHist : List (BitVec 64)
deriving DecidableEq, Repr

namespace Tally

def empty : Tally :=
  ⟨0, 0, 0, []⟩

def value (warmup : Nat) (t : Tally) (dt : BitVec 64) : Tally :=
  if warmup ≤ t.seen then
    { t with
      seen := t.seen + 1
      values := t.values + 1
      valueHist := t.valueHist ++ [dt] }
  else { t with seen := t.seen + 1 }

def lap (warmup : Nat) (t : Tally) : Tally :=
  if warmup ≤ t.seen then
    { t with
      seen := t.seen + 1
      lapped := t.lapped + 1 }
  else { t with seen := t.seen + 1 }

end Tally

inductive MeasurePc (W : Nat) where
  /-- Before `until` is computed, when there is a delay. -/
  | pausing
  | delaying (stop : BitVec 64)
  /-- Before `t0` is read. -/
  | timing
  | reading (t0 : BitVec 64)
  /-- Before `dt` is computed. -/
  | measuring (t0 : BitVec 64) (result : ReadResult W 1 (BitVec 64))
  | loadDone
  | finished

/--
The consumer loop of `measure` in the lapped bench.  `readings` is history: the
readings of the clock before and after each call.
-/
structure MeasureLoop (W : Nat) where
  tally : Tally
  readings : List (BitVec 64 × BitVec 64)
  lappedHist : List (BitVec 64)
  skippedHist : List Nat
  pc : MeasurePc W

namespace MeasureLoop

variable {W : Nat}

def next (delay : BitVec 64) : MeasurePc W :=
  if 0 < delay then MeasurePc.pausing else MeasurePc.timing

def record (delay : BitVec 64) (warmup : Nat) (c : MeasureLoop W)
    (dt : BitVec 64) : ReadResult W 1 (BitVec 64) -> MeasureLoop W
  | ReadResult.value _ =>
      { c with
        tally := c.tally.value warmup dt
        pc := next delay }
  | ReadResult.lapped skipped =>
      if warmup ≤ c.tally.seen then
        { c with
          tally := c.tally.lap warmup
          lappedHist := c.lappedHist ++ [dt]
          skippedHist := c.skippedHist ++ [skipped.toNat]
          pc := next delay }
      else
        { c with
          tally := c.tally.lap warmup
          pc := next delay }
  | ReadResult.empty => { c with pc := MeasurePc.loadDone }

def clock (delay : BitVec 64) (warmup : Nat) (c : MeasureLoop W)
    (tsc : BitVec 64) : Option (MeasureLoop W) :=
  match c.pc with
  | MeasurePc.pausing => some { c with pc := MeasurePc.delaying (tsc + delay) }
  | MeasurePc.delaying stop =>
      if tsc < stop then some c else some { c with pc := MeasurePc.timing }
  | MeasurePc.timing => some { c with pc := MeasurePc.reading tsc }
  | MeasurePc.measuring t0 result =>
      let c := { c with readings := c.readings ++ [(t0, tsc)] }
      some (record delay warmup c (tsc - t0) result)
  | _ => none

def reads (c : MeasureLoop W) : Bool :=
  match c.pc with
  | MeasurePc.reading _ => true
  | _ => false

def answered (c : MeasureLoop W) (result : ReadResult W 1 (BitVec 64)) :
    MeasureLoop W :=
  match c.pc with
  | MeasurePc.reading t0 => { c with pc := MeasurePc.measuring t0 result }
  | _ => c

def asks (c : MeasureLoop W) : Bool :=
  match c.pc with
  | MeasurePc.loadDone => true
  | _ => false

def loaded (delay : BitVec 64) (c : MeasureLoop W) (done : Bool) :
    MeasureLoop W :=
  { c with pc := if done then MeasurePc.finished else next delay }

def finished (c : MeasureLoop W) : Bool :=
  match c.pc with
  | MeasurePc.finished => true
  | _ => false

end MeasureLoop

def measureLoop (W : Nat) (delay : BitVec 64) (warmup : Nat) :
    ReadLoop W 1 (BitVec 64) where
  State := MeasureLoop W
  start := ⟨Tally.empty, [], [], [], MeasureLoop.next delay⟩
  clock := MeasureLoop.clock delay warmup
  reads := MeasureLoop.reads
  answered := MeasureLoop.answered
  asks := MeasureLoop.asks
  loaded := MeasureLoop.loaded delay
  finished := MeasureLoop.finished
  waits c h := by
    unfold MeasureLoop.reads at h
    split at h
    · rename_i t0 hpc
      constructor
      · rw [MeasureLoop.asks, hpc]
      · intro tsc
        rw [MeasureLoop.clock, hpc]
    · cases h

inductive SweepPc where
  | timing
  | reading (t0 : BitVec 64)
  /-- A value was returned, and `dt` is computed next. -/
  | measuring (t0 : BitVec 64)
  | loadDone
  | finished
deriving DecidableEq, Repr

/-- The consumer loop of `run_spmc_capacity_sweep_one`. -/
structure SweepLoop where
  tally : Tally
  pc : SweepPc
deriving DecidableEq, Repr

namespace SweepLoop

variable {W : Nat}

def clock (warmup : Nat) (c : SweepLoop) (tsc : BitVec 64) :
    Option SweepLoop :=
  match c.pc with
  | SweepPc.timing => some { c with pc := SweepPc.reading tsc }
  | SweepPc.measuring t0 =>
      some ⟨c.tally.value warmup (tsc - t0), SweepPc.timing⟩
  | _ => none

def reads (c : SweepLoop) : Bool :=
  match c.pc with
  | SweepPc.reading _ => true
  | _ => false

def answered (warmup : Nat) (c : SweepLoop)
    (result : ReadResult W 1 (BitVec 64)) : SweepLoop :=
  match c.pc, result with
  | SweepPc.reading t0, ReadResult.value _ =>
      { c with pc := SweepPc.measuring t0 }
  | SweepPc.reading _, ReadResult.lapped _ =>
      ⟨c.tally.lap warmup, SweepPc.timing⟩
  | SweepPc.reading _, ReadResult.empty => { c with pc := SweepPc.loadDone }
  | _, _ => c

def asks (c : SweepLoop) : Bool :=
  c.pc == SweepPc.loadDone

def loaded (c : SweepLoop) (done : Bool) : SweepLoop :=
  { c with pc := if done then SweepPc.finished else SweepPc.timing }

def finished (c : SweepLoop) : Bool :=
  c.pc == SweepPc.finished

end SweepLoop

def sweepLoop (W warmup : Nat) : ReadLoop W 1 (BitVec 64) where
  State := SweepLoop
  start := ⟨Tally.empty, SweepPc.timing⟩
  clock := SweepLoop.clock warmup
  reads := SweepLoop.reads
  answered := SweepLoop.answered warmup
  asks := SweepLoop.asks
  loaded := SweepLoop.loaded
  finished := SweepLoop.finished
  waits c h := by
    unfold SweepLoop.reads at h
    split at h
    · rename_i t0 hpc
      constructor
      · rw [SweepLoop.asks, hpc]
        rfl
      · intro tsc
        rw [SweepLoop.clock, hpc]
    · cases h

/-!
## The benches

`WARMUP` of the two timed benches is 1000.
-/

namespace SpmcThreads

variable {W : Nat}

def runSpmcHandoff (cap : Capacity W) (n warmup : Nat) (pace : BitVec 64) :
    Machine (SpmcThreads cap (pacedLoop n pace) (latencyLoop W warmup))
      (SpmcThreadAction 1 (BitVec 64)) :=
  spmcThreads cap (pacedLoop n pace) (latencyLoop W warmup)

def measure (cap : Capacity W) (delay runTicks : BitVec 64) (warmup : Nat) :
    Machine
      (SpmcThreads cap (windowLoop runTicks false)
        (measureLoop W delay warmup))
      (SpmcThreadAction 1 (BitVec 64)) :=
  spmcThreads cap (windowLoop runTicks false) (measureLoop W delay warmup)

def runSpmcCapacitySweepOne (cap : Capacity W) (runTicks : BitVec 64)
    (warmup : Nat) :
    Machine
      (SpmcThreads cap (windowLoop runTicks true) (sweepLoop W warmup))
      (SpmcThreadAction 1 (BitVec 64)) :=
  spmcThreads cap (windowLoop runTicks true) (sweepLoop W warmup)

end SpmcThreads

end Bench
end LowLatency
