import LowLatency.Spsc.ViewSafety
import LowLatency.Bench.Schedule

/-!
# The threads of the SPSC benches

`run_spsc_handoff` and `measure_at_rate` move the two handles to two threads.
The producer thread pushes until `n` items are accepted and then stores `done`;
the consumer thread pops until it finds `done` set, and then drains the queue.
The threads run on the queue under release and acquire, and `done` is a place of
the program around it.  The benches differ in what the producer does between two
calls of `try_push`, and in what they record of an item.
-/

namespace LowLatency
namespace Bench

open Foundation Spsc

/-!
## The loops
-/

/-- What a producer thread does between its calls of `try_push`. -/
structure PushLoop (T : Type) where
  State : Type
  start : State
  /-- After a reading of the clock. -/
  clock : State -> BitVec 64 -> Option State
  /-- The item of the next call. -/
  offer : State -> Option T
  /-- After a call that returned the given item. -/
  answered : State -> Option T -> State
  /-- All items are accepted, so that `done` is stored next. -/
  finished : State -> Bool
  ends : forall p, finished p = true ->
    offer p = none ∧ forall tsc, clock p tsc = none

/-- Where the consumer thread stands; `drains` marks the loop after `done`. -/
inductive PopLoopPc (T : Type) where
  | polling (drains : Bool)
  | recording (drains : Bool) (item : Option T)
  | loadDone
  | finished
deriving DecidableEq, Repr

/-- `clocks` is history: the readings of the consumer, one for each item. -/
structure SpscThreads {W : Nat} (cap : Capacity W) {T : Type} (L : PushLoop T)
    (S : Type) where
  queue : ViewSystem cap Unit Bool T
  producer : L.State
  stored : Bool
  pc : PopLoopPc T
  seen : Nat
  clocks : List (BitVec 64)
  samples : List (Option S)

inductive ThreadAction (T : Type) where
  | clock (tsc : BitVec 64)
  | push
  | pushStep (a : ViewAction Unit Bool T)
  | storeDone
  | pop
  | popStep (a : ViewAction Unit Bool T)
  | record (now : BitVec 64)
  | loadDone (i : Nat)
  | drop (a : ViewAction Unit Bool T)

def isPushStep {T : Type} : ViewAction Unit Bool T -> Bool
  | ViewAction.pushLoadHead _ => true
  | ViewAction.pushWriteSlot => true
  | ViewAction.pushStoreTail => true
  | _ => false

def isPopStep {T : Type} : ViewAction Unit Bool T -> Bool
  | ViewAction.popLoadTail _ => true
  | ViewAction.popReadSlot => true
  | ViewAction.popStoreHead => true
  | _ => false

namespace SpscThreads

variable {W : Nat} {cap : Capacity W} {T : Type} {L : PushLoop T} {S : Type}

def start (cap : Capacity W) (L : PushLoop T) (S : Type) :
    SpscThreads cap L S where
  queue := ViewSystem.new cap T (fun _ => false)
  producer := L.start
  stored := false
  pc := PopLoopPc.polling false
  seen := 0
  clocks := []
  samples := []

/-!
## Steps of the producer thread
-/

def clock (s : SpscThreads cap L S) (tsc : BitVec 64) :
    Option (SpscThreads cap L S) :=
  match s.queue.pushPc with
  | PushPc.idle =>
      (L.clock s.producer tsc).map (fun producer =>
        { s with producer := producer })
  | _ => none

def push (s : SpscThreads cap L S) : Option (SpscThreads cap L S) :=
  match L.offer s.producer with
  | some item =>
      (s.queue.pushCall item).map (fun queue => { s with queue := queue })
  | none => none

def pushStep (s : SpscThreads cap L S) (a : ViewAction Unit Bool T) :
    Option (SpscThreads cap L S) :=
  if isPushStep a then
    (s.queue.step a).map (fun queue =>
      match queue.pushPc, queue.pushResults.getLast? with
      | PushPc.idle, some back =>
          { s with
            queue := queue
            producer := L.answered s.producer back }
      | _, _ => { s with queue := queue })
  else none

def storeDone (s : SpscThreads cap L S) : Option (SpscThreads cap L S) :=
  if L.finished s.producer && !s.stored then
    (s.queue.clientStore Side.producer () true).map (fun queue =>
      { s with
        queue := queue
        stored := true })
  else none

/-!
## Steps of the consumer thread
-/

def pop (s : SpscThreads cap L S) : Option (SpscThreads cap L S) :=
  match s.pc with
  | PopLoopPc.polling _ =>
      s.queue.popCall.map (fun queue => { s with queue := queue })
  | _ => none

/-- A step of `try_pop`; after the last one an item is recorded, if there is one. -/
def popStep (s : SpscThreads cap L S) (a : ViewAction Unit Bool T) :
    Option (SpscThreads cap L S) :=
  match s.pc with
  | PopLoopPc.polling drains =>
      if isPopStep a then
        (s.queue.step a).map (fun queue =>
          match queue.popPc, queue.popResults.getLast? with
          | PopPc.idle, some (some item) =>
              { s with
                queue := queue
                pc := PopLoopPc.recording drains item }
          | PopPc.idle, some none =>
              { s with
                queue := queue
                pc :=
                  if drains then PopLoopPc.finished else PopLoopPc.loadDone }
          | _, _ => { s with queue := queue })
      else none
  | _ => none

/-- `record` computes the sample of an item; the first `warmup` are discarded. -/
def record (sample : T -> BitVec 64 -> S) (warmup : Nat)
    (s : SpscThreads cap L S) (now : BitVec 64) :
    Option (SpscThreads cap L S) :=
  match s.pc with
  | PopLoopPc.recording drains item =>
      some { s with
        pc := PopLoopPc.polling drains
        seen := s.seen + 1
        clocks := s.clocks ++ [now]
        samples :=
          if warmup ≤ s.seen then
            s.samples ++ [item.map (fun v => sample v now)]
          else s.samples }
  | _ => none

def loadDone (s : SpscThreads cap L S) (i : Nat) :
    Option (SpscThreads cap L S) :=
  match s.pc with
  | PopLoopPc.loadDone =>
      (s.queue.clientLoad Side.consumer () i).map (fun out =>
        { s with
          queue := out.2
          pc := PopLoopPc.polling out.1 })
  | _ => none

/-!
## The end of the threads

A thread drops its handle when it returns.
-/

def mayDrop (s : SpscThreads cap L S) : ViewAction Unit Bool T -> Bool
  | ViewAction.dropHandle Side.producer => s.stored
  | ViewAction.dropHandle Side.consumer =>
      match s.pc with
      | PopLoopPc.finished => true
      | _ => false
  | ViewAction.dropFence => true
  | ViewAction.dropLoadHead _ => true
  | ViewAction.dropLoadTail _ => true
  | ViewAction.dropSlot => true
  | ViewAction.dropFree => true
  | _ => false

def drop (s : SpscThreads cap L S) (a : ViewAction Unit Bool T) :
    Option (SpscThreads cap L S) :=
  if s.mayDrop a then
    (s.queue.step a).map (fun queue => { s with queue := queue })
  else none

def step (sample : T -> BitVec 64 -> S) (warmup : Nat)
    (s : SpscThreads cap L S) :
    ThreadAction T -> Option (SpscThreads cap L S)
  | ThreadAction.clock tsc => s.clock tsc
  | ThreadAction.push => s.push
  | ThreadAction.pushStep a => s.pushStep a
  | ThreadAction.storeDone => s.storeDone
  | ThreadAction.pop => s.pop
  | ThreadAction.popStep a => s.popStep a
  | ThreadAction.record now => s.record sample warmup now
  | ThreadAction.loadDone i => s.loadDone i
  | ThreadAction.drop a => s.drop a

end SpscThreads

def spscThreads {W : Nat} (cap : Capacity W) {T S : Type} (L : PushLoop T)
    (sample : T -> BitVec 64 -> S) (warmup : Nat) :
    Machine (SpscThreads cap L S) (ThreadAction T) where
  start := SpscThreads.start cap L S
  step := SpscThreads.step sample warmup

/-!
## The producer loops
-/

/-- The loop of `run_spsc_handoff`: each attempt for item `i` has its own reading. -/
structure HandoffLoop where
  i : Nat
  ts : Option (BitVec 64)
deriving DecidableEq, Repr

def handoffLoop (n : Nat) : PushLoop (BitVec 64) where
  State := HandoffLoop
  start := ⟨0, none⟩
  clock p tsc :=
    if p.i < n && p.ts.isNone then some { p with ts := some tsc } else none
  offer p := p.ts
  answered p back :=
    match back with
    | none => ⟨p.i + 1, none⟩
    | some _ => { p with ts := none }
  finished p := p.i == n && p.ts.isNone
  ends p h := by
    rcases Bool.and_eq_true_iff.mp h with ⟨hi, hts⟩
    have hi' := beq_iff_eq.mp hi
    constructor
    · exact Option.isNone_iff_eq_none.mp hts
    · intro tsc
      simp [hi']

structure Stamped where
  scheduleTsc : BitVec 64
  pushTsc : BitVec 64
deriving DecidableEq, Repr

inductive ThrottledPc where
  /-- Before `t_start` is read. -/
  | starting
  | waiting (scheduleTsc : BitVec 64)
  /-- Before `push_tsc` is read. -/
  | stamping (scheduleTsc : BitVec 64)
  | pushing (pending : Stamped) (wasFull : Bool)
  /-- Before `t_end` is read. -/
  | ending
  | ended (tEnd : BitVec 64)
deriving DecidableEq, Repr

/--
The loop of `measure_at_rate`.  `last` and `ordered` are history: the last reading
of the clock, and that no reading was before an earlier one.
-/
structure ThrottledLoop where
  last : BitVec 64
  ordered : Bool
  tStart : BitVec 64
  scheduleQ32 : BitVec 128
  i : Nat
  fullPushes : Nat
  pc : ThrottledPc
deriving DecidableEq, Repr

namespace ThrottledLoop

def next (dt : BitVec 128) (n : Nat) (p : ThrottledLoop) : ThrottledLoop :=
  if p.i < n then
    let q := p.scheduleQ32 + dt
    { p with
      scheduleQ32 := q
      pc := ThrottledPc.waiting (scheduleTsc q) }
  else { p with pc := ThrottledPc.ending }

def reading (p : ThrottledLoop) (tsc : BitVec 64) : ThrottledLoop :=
  { p with
    last := tsc
    ordered := p.ordered && decide (p.last ≤ tsc) }

def clock (dt : BitVec 128) (n : Nat) (p : ThrottledLoop) (tsc : BitVec 64) :
    Option ThrottledLoop :=
  match p.pc with
  | ThrottledPc.starting =>
      some (next dt n { p.reading tsc with
        tStart := tsc
        scheduleQ32 := tsc.setWidth 128 <<< 32 })
  | ThrottledPc.waiting schedule =>
      if schedule ≤ tsc then
        some { p.reading tsc with pc := ThrottledPc.stamping schedule }
      else some (p.reading tsc)
  | ThrottledPc.stamping schedule =>
      some { p.reading tsc with
        pc := ThrottledPc.pushing ⟨schedule, tsc⟩ false }
  | ThrottledPc.pushing _ _ => none
  | ThrottledPc.ending =>
      some { p.reading tsc with pc := ThrottledPc.ended tsc }
  | ThrottledPc.ended _ => none

def offer (p : ThrottledLoop) : Option Stamped :=
  match p.pc with
  | ThrottledPc.pushing pending _ => some pending
  | _ => none

def answered (dt : BitVec 128) (n : Nat) (p : ThrottledLoop)
    (back : Option Stamped) : ThrottledLoop :=
  match p.pc, back with
  | ThrottledPc.pushing _ wasFull, none =>
      next dt n { p with
        i := p.i + 1
        fullPushes := if wasFull then p.fullPushes + 1 else p.fullPushes }
  | ThrottledPc.pushing _ _, some item =>
      { p with pc := ThrottledPc.pushing item true }
  | _, _ => p

def finished (p : ThrottledLoop) : Bool :=
  match p.pc with
  | ThrottledPc.ended _ => true
  | _ => false

end ThrottledLoop

def throttledLoop (dt : BitVec 128) (n : Nat) : PushLoop Stamped where
  State := ThrottledLoop
  start := ⟨0, true, 0, 0, 0, 0, ThrottledPc.starting⟩
  clock := ThrottledLoop.clock dt n
  offer := ThrottledLoop.offer
  answered := ThrottledLoop.answered dt n
  finished := ThrottledLoop.finished
  ends p h := by
    unfold ThrottledLoop.finished at h
    split at h
    · rename_i hpc
      constructor
      · rw [ThrottledLoop.offer, hpc]
      · intro tsc
        rw [ThrottledLoop.clock, hpc]
    · cases h

/-!
## The benches
-/

namespace SpscThreads

def runSpscHandoff {W : Nat} (cap : Capacity W) (n warmup : Nat) :
    Machine (SpscThreads cap (handoffLoop n) (BitVec 64))
      (ThreadAction (BitVec 64)) :=
  spscThreads cap (handoffLoop n) (fun ts now => now - ts) warmup

def latencies (captureSys : Bool) (item : Stamped) (now : BitVec 64) :
    BitVec 64 × Option (BitVec 64) :=
  (now - item.scheduleTsc,
    if captureSys then some (now - item.pushTsc) else none)

def measureAtRate {W : Nat} (cap : Capacity W) (tscHz rateHz : BitVec 64)
    (n warmup : Nat) (captureSys : Bool) :
    Machine
      (SpscThreads cap (throttledLoop (dtQ32 tscHz rateHz) n)
        (BitVec 64 × Option (BitVec 64)))
      (ThreadAction Stamped) :=
  spscThreads cap (throttledLoop (dtQ32 tscHz rateHz) n) (latencies captureSys)
    warmup

end SpscThreads
end Bench
end LowLatency
