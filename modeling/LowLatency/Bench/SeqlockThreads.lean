import LowLatency.Bench.SpmcResults
import LowLatency.Seqlock.ViewReads

/-!
# The threads of the seqlock bench

The writer thread writes the time and gives the reader some time to see it; the
reader thread reads in a loop and records the latency of each new time.  The
lock runs under weak memory.  A load of `done` may miss its store.
-/

namespace LowLatency
namespace Bench

open Foundation Seqlock

inductive FollowPc where
  | reading
  /-- Before `now` is read. -/
  | timing (ts : BitVec 64)
  | loadDone (ts now : BitVec 64)
  | finished
deriving DecidableEq, Repr

/--
The reader loop of the seqlock bench.  `picked` is history: the recorded times,
each with the reading of the clock.
-/
structure FollowLoop where
  lastTs : BitVec 64
  seen : Nat
  hist : List (BitVec 64)
  picked : List (BitVec 64 × BitVec 64)
  pc : FollowPc
deriving DecidableEq, Repr

namespace FollowLoop

/-- `INIT_VALUE` is zero. -/
def start : FollowLoop :=
  ⟨0, 0, [], [], FollowPc.reading⟩

def returned (c : FollowLoop) (value : Payload 1 (BitVec 64)) : FollowLoop :=
  { c with pc := FollowPc.timing (value (Fin.last 0)) }

def clock (c : FollowLoop) (now : BitVec 64) : Option FollowLoop :=
  match c.pc with
  | FollowPc.timing ts => some { c with pc := FollowPc.loadDone ts now }
  | _ => none

def loaded (warmup : Nat) (c : FollowLoop) (done : Bool) :
    Option FollowLoop :=
  match c.pc with
  | FollowPc.loadDone ts now =>
      if done then some { c with pc := FollowPc.finished }
      else if ts = c.lastTs then some { c with pc := FollowPc.reading }
      else
        some {
          lastTs := ts
          seen := c.seen + 1
          hist := if warmup ≤ c.seen then c.hist ++ [now - ts] else c.hist
          picked := c.picked ++ [(ts, now)]
          pc := FollowPc.reading }
  | _ => none

end FollowLoop

structure SeqlockThreads where
  lock : ViewSystem Unit 1 (BitVec 64)
  writer : PacedLoop
  stored : Bool
  reader : FollowLoop

inductive SeqlockThreadAction where
  | writerClock (tsc : BitVec 64)
  | write (k : Nat)
  | writeStep (a : ViewAction Unit 1 (BitVec 64))
  | storeDone
  | readerClock (now : BitVec 64)
  | readStep (a : ViewReadAction 1)
  | loadDone (answer : Bool)

def isWriteStep : ViewAction Unit 1 (BitVec 64) -> Bool
  | ViewAction.writeStoreOdd => true
  | ViewAction.writeFence => true
  | ViewAction.writeWord _ => true
  | ViewAction.writeStoreEven => true
  | _ => false

namespace SeqlockThreads

def start : SeqlockThreads where
  lock := ViewSystem.new Unit (word64 0)
  writer := ⟨0, PacedPc.stamping⟩
  stored := false
  reader := FollowLoop.start

/-!
## Steps of the writer thread
-/

def writerClock (n : Nat) (s : SeqlockThreads) (tsc : BitVec 64) :
    Option SeqlockThreads :=
  match s.lock.writePc with
  | WritePc.idle =>
      (s.writer.clock n tsc).map (fun writer => { s with writer := writer })
  | _ => none

def write (s : SeqlockThreads) (k : Nat) : Option SeqlockThreads :=
  match s.writer.offer with
  | some value =>
      (s.lock.writeCall value k).map (fun lock => { s with lock := lock })
  | none => none

def writeStep (pace : BitVec 64) (s : SeqlockThreads)
    (a : ViewAction Unit 1 (BitVec 64)) : Option SeqlockThreads :=
  if isWriteStep a then
    (s.lock.step a).map (fun lock =>
      match lock.writePc with
      | WritePc.idle =>
          { s with
            lock := lock
            writer := s.writer.answered pace none }
      | _ => { s with lock := lock })
  else none

def storeDone (n : Nat) (s : SeqlockThreads) : Option SeqlockThreads :=
  if s.writer.finished n && !s.stored then some { s with stored := true }
  else none

/-!
## Steps of the reader thread
-/

def readerClock (s : SeqlockThreads) (now : BitVec 64) :
    Option SeqlockThreads :=
  (s.reader.clock now).map (fun reader => { s with reader := reader })

/-- A step of `read`; the last one appends to the returns of the lock. -/
def readStep (s : SeqlockThreads) (a : ViewReadAction 1) :
    Option SeqlockThreads :=
  match s.reader.pc with
  | FollowPc.reading =>
      (s.lock.read () a).map (fun lock =>
        match lock.returns[s.lock.returns.length]? with
        | some e =>
            { s with
              lock := lock
              reader := s.reader.returned e.value }
        | none => { s with lock := lock })
  | _ => none

def loadDone (warmup : Nat) (s : SeqlockThreads) (answer : Bool) :
    Option SeqlockThreads :=
  if answer && !s.stored then none
  else
    (s.reader.loaded warmup answer).map (fun reader =>
      { s with reader := reader })

def step (n : Nat) (pace : BitVec 64) (warmup : Nat) (s : SeqlockThreads) :
    SeqlockThreadAction -> Option SeqlockThreads
  | SeqlockThreadAction.writerClock tsc => s.writerClock n tsc
  | SeqlockThreadAction.write k => s.write k
  | SeqlockThreadAction.writeStep a => s.writeStep pace a
  | SeqlockThreadAction.storeDone => s.storeDone n
  | SeqlockThreadAction.readerClock now => s.readerClock now
  | SeqlockThreadAction.readStep a => s.readStep a
  | SeqlockThreadAction.loadDone answer => s.loadDone warmup answer

end SeqlockThreads

/--
The two threads of the bench: `n` is `N`, `warmup` is `WARMUP`, and `pace` is
`BUSY_CYCLES_GIVE_READER_TIME`.
-/
def seqlockHandoff (n : Nat) (pace : BitVec 64) (warmup : Nat) :
    Machine SeqlockThreads SeqlockThreadAction where
  start := SeqlockThreads.start
  step := SeqlockThreads.step n pace warmup

namespace SeqlockThreads

variable {n warmup : Nat} {pace : BitVec 64} {s s' : SeqlockThreads}

/-!
## What each step does
-/

theorem writerClock_inv {tsc : BitVec 64}
    (h : s.writerClock n tsc = some s') :
    exists p, s.writer.clock n tsc = some p ∧ s.lock.writePc = WritePc.idle ∧
      s' = { s with writer := p } := by
  unfold writerClock at h
  split at h
  · rename_i hpc
    rcases Option.map_eq_some_iff.mp h with ⟨p, hp, hs'⟩
    exact ⟨p, hp, hpc, hs'.symm⟩
  · cases h

theorem write_inv {k : Nat} (h : s.write k = some s') :
    exists value lock, s.writer.offer = some value ∧
      s.lock.step (ViewAction.writeCall value k) = some lock ∧
      s' = { s with lock := lock } := by
  unfold write at h
  split at h
  · rename_i value hvalue
    rcases Option.map_eq_some_iff.mp h with ⟨lock, hlock, hs'⟩
    exact ⟨value, lock, hvalue, hlock, hs'.symm⟩
  · cases h

theorem writeStep_inv {a : ViewAction Unit 1 (BitVec 64)}
    (h : s.writeStep pace a = some s') :
    exists lock, s.lock.step a = some lock ∧
      lock.versions = s.lock.versions ∧ lock.returns = s.lock.returns ∧
      s.lock.writePc ≠ WritePc.idle ∧
      ((lock.writePc ≠ WritePc.idle ∧ s' = { s with lock := lock }) ∨
        (lock.writePc = WritePc.idle ∧
          s' = { s with
            lock := lock
            writer := s.writer.answered pace none })) := by
  unfold writeStep at h
  split at h
  · rename_i ha
    rcases Option.map_eq_some_iff.mp h with ⟨lock, hlock, hs'⟩
    have hsame : lock.versions = s.lock.versions ∧
        lock.returns = s.lock.returns ∧ s.lock.writePc ≠ WritePc.idle := by
      cases a with
      | writeCall | read => cases ha
      | writeStoreOdd =>
          rcases ViewSystem.writeStoreOdd_inv hlock with ⟨_, _, hpc, rfl⟩
          exact ⟨rfl, rfl, by rw [hpc]; intro heq; cases heq⟩
      | writeFence =>
          rcases ViewSystem.writeFence_inv hlock with ⟨_, _, hpc, rfl⟩
          exact ⟨rfl, rfl, by rw [hpc]; intro heq; cases heq⟩
      | writeWord w =>
          rcases ViewSystem.writeWord_inv hlock with ⟨_, _, _, hpc, _, rfl⟩
          exact ⟨rfl, rfl, by rw [hpc]; intro heq; cases heq⟩
      | writeStoreEven =>
          rcases ViewSystem.writeStoreEven_inv hlock with
            ⟨_, _, _, hpc, _, rfl⟩
          exact ⟨rfl, rfl, by rw [hpc]; intro heq; cases heq⟩
    rcases hsame with ⟨hversions, hreturns, hbusy⟩
    refine ⟨lock, hlock, hversions, hreturns, hbusy, ?_⟩
    split at hs'
    · rename_i hpc
      exact Or.inr ⟨hpc, hs'.symm⟩
    · rename_i hpc
      exact Or.inl ⟨hpc, hs'.symm⟩
  · cases h

theorem storeDone_inv (h : s.storeDone n = some s') :
    s' = { s with stored := true } := by
  unfold storeDone at h
  split at h
  · exact (Option.some.inj h).symm
  · cases h

theorem readerClock_inv {now : BitVec 64} (h : s.readerClock now = some s') :
    exists ts, s.reader.pc = FollowPc.timing ts ∧
      s' = { s with
        reader := { s.reader with pc := FollowPc.loadDone ts now } } := by
  rcases Option.map_eq_some_iff.mp h with ⟨c, hc, hs'⟩
  unfold FollowLoop.clock at hc
  split at hc
  · rename_i ts hpc
    cases hc
    exact ⟨ts, hpc, hs'.symm⟩
  · cases hc

theorem readStep_inv {a : ViewReadAction 1} (h : s.readStep a = some s') :
    exists lock, s.reader.pc = FollowPc.reading ∧
      s.lock.step (ViewAction.read () a) = some lock ∧
      ((lock.returns = s.lock.returns ∧ s' = { s with lock := lock }) ∨
        (exists e, lock.returns = s.lock.returns ++ [e] ∧
          s' = { s with
            lock := lock
            reader := s.reader.returned e.value })) := by
  unfold readStep at h
  split at h
  · rename_i hpc
    rcases Option.map_eq_some_iff.mp h with ⟨lock, hlock, hs'⟩
    refine ⟨lock, hpc, hlock, ?_⟩
    have hreturns : lock.returns = s.lock.returns ∨
        exists e, lock.returns = s.lock.returns ++ [e] := by
      cases a with
      | call =>
          rcases ViewSystem.readCall_inv hlock with ⟨_, rfl⟩
          exact Or.inl rfl
      | loadSeq k =>
          rcases ViewSystem.readLoadSeq_inv hlock with
            ⟨_, _, _, _, _, ⟨_, rfl⟩ | ⟨_, _, rfl⟩⟩
          · exact Or.inl rfl
          · exact Or.inr ⟨_, rfl⟩
      | loadWord w u =>
          rcases ViewSystem.readLoadWord_inv hlock with ⟨_, _, _, _, rfl⟩
          exact Or.inl rfl
      | fence =>
          rcases ViewSystem.readFence_inv hlock with ⟨_, _, rfl⟩
          exact Or.inl rfl
    rcases hreturns with hsame | ⟨e, he⟩
    · rw [hsame, List.getElem?_length] at hs'
      exact Or.inl ⟨hsame, hs'.symm⟩
    · rw [he, List.getElem?_concat_length] at hs'
      exact Or.inr ⟨e, he, hs'.symm⟩
  · cases h

theorem loadDone_inv {answer : Bool} (h : s.loadDone warmup answer = some s') :
    exists c, s.reader.loaded warmup answer = some c ∧
      s' = { s with reader := c } := by
  unfold loadDone at h
  split at h
  · cases h
  · rcases Option.map_eq_some_iff.mp h with ⟨c, hc, hs'⟩
    exact ⟨c, hc, hs'.symm⟩

theorem lock_step {a : SeqlockThreadAction} (h : s.step n pace warmup a = some s') :
    s'.lock = s.lock ∨ exists b, s.lock.step b = some s'.lock := by
  cases a with
  | writerClock tsc =>
      rcases writerClock_inv h with ⟨_, _, _, rfl⟩
      exact Or.inl rfl
  | write k =>
      rcases write_inv h with ⟨_, _, _, hlock, rfl⟩
      exact Or.inr ⟨_, hlock⟩
  | writeStep a =>
      rcases writeStep_inv h with ⟨_, hlock, _, _, _, ⟨_, rfl⟩ | ⟨_, rfl⟩⟩
      · exact Or.inr ⟨_, hlock⟩
      · exact Or.inr ⟨_, hlock⟩
  | storeDone =>
      rw [storeDone_inv h]
      exact Or.inl rfl
  | readerClock now =>
      rcases readerClock_inv h with ⟨_, _, rfl⟩
      exact Or.inl rfl
  | readStep a =>
      rcases readStep_inv h with ⟨_, _, hlock, ⟨_, rfl⟩ | ⟨_, _, rfl⟩⟩
      · exact Or.inr ⟨_, hlock⟩
      · exact Or.inr ⟨_, hlock⟩
  | loadDone answer =>
      rcases loadDone_inv h with ⟨_, _, rfl⟩
      exact Or.inl rfl

theorem lock_reachable (hs : (seqlockHandoff n pace warmup).Reachable s) :
    (viewMachine Unit (word64 0)).Reachable s.lock := by
  apply hs.invariant (P := fun s =>
    (viewMachine Unit (word64 0)).Reachable s.lock) (Machine.reachable_start _)
  intro s a s' hlock h
  rcases lock_step h with heq | ⟨b, hb⟩
  · rw [heq]
    exact hlock
  · exact hlock.step hb

/-!
## The writes
-/

/-- The times written so far, and the one that is being written. -/
inductive Writing (n : Nat) (s : SeqlockThreads) : Prop where
  | between (accepted : List (Payload 1 (BitVec 64)))
      (hpc : s.lock.writePc = WritePc.idle)
      (hp : s.writer.Counted n accepted)
      (hversions : s.lock.versions = word64 0 :: accepted)
  | during (accepted : List (Payload 1 (BitVec 64)))
      (value : Payload 1 (BitVec 64)) (hpc : s.lock.writePc ≠ WritePc.idle)
      (hp : s.writer.Counted n accepted)
      (hoffer : s.writer.offer = some value)
      (hversions : s.lock.versions = word64 0 :: (accepted ++ [value]))

namespace Writing

theorem length_le (hs : Writing n s) : s.lock.versions.length ≤ n + 1 := by
  cases hs with
  | between accepted _ hp hversions =>
      have hlength := hp.length
      rw [hversions, List.length_cons, hlength]
      have hle := hp.le
      cases hpc : s.writer.pc with
      | pacing stop =>
          have hmore := hp.more (by rw [hpc]; intro heq; cases heq)
          dsimp only
          lia
      | stamping | publishing =>
          dsimp only
          lia
  | during accepted value _ hp hoffer hversions =>
      have hlength := hp.length
      rw [hversions, List.length_cons, List.length_append, hlength]
      cases hpc : s.writer.pc with
      | stamping | pacing =>
          rw [PacedLoop.offer, hpc] at hoffer
          cases hoffer
      | publishing ts =>
          have hmore := hp.more (by rw [hpc]; intro heq; cases heq)
          rw [List.length_singleton]
          dsimp only
          lia

theorem of_reader (hs : Writing n s) (hpc : s'.lock.writePc = s.lock.writePc)
    (hversions : s'.lock.versions = s.lock.versions)
    (hwriter : s'.writer = s.writer) : Writing n s' := by
  cases hs with
  | between accepted hidle hp hold =>
      refine Writing.between accepted (hpc.trans hidle) ?_
        (hversions.trans hold)
      rw [hwriter]
      exact hp
  | during accepted value hbusy hp hoffer hold =>
      refine Writing.during accepted value ?_ ?_ ?_ (hversions.trans hold)
      · rw [hpc]
        exact hbusy
      · rw [hwriter]
        exact hp
      · rw [hwriter]
        exact hoffer

theorem step {a : SeqlockThreadAction} (hs : Writing n s)
    (h : s.step n pace warmup a = some s') : Writing n s' := by
  have hloop := PacedLoop.publishes n pace
  cases a with
  | writerClock tsc =>
      rcases writerClock_inv h with ⟨p, hp, hidle, rfl⟩
      cases hs with
      | between accepted hpc hold hversions =>
          exact Writing.between accepted hpc
            (hloop.clock _ _ _ _ hold hp) hversions
      | during _ _ hbusy => exact absurd hidle hbusy
  | write k =>
      rcases write_inv h with ⟨value, lock, hoffer, hlock, rfl⟩
      rcases ViewSystem.writeCall_inv hlock with ⟨_, hidle, _, rfl⟩
      cases hs with
      | between accepted _ hp hversions =>
          refine Writing.during accepted value (by intro heq; cases heq) hp
            hoffer ?_
          show s.lock.versions ++ [value] = _
          rw [hversions, List.cons_append]
      | during _ _ hbusy => exact absurd hidle hbusy
  | writeStep a =>
      rcases writeStep_inv h with ⟨lock, _, hsame, _, hbusy, hcase⟩
      cases hs with
      | between _ hidle => exact absurd hidle hbusy
      | during accepted value _ hp hoffer hversions =>
          rcases hcase with ⟨hpc, rfl⟩ | ⟨hpc, rfl⟩
          · exact Writing.during accepted value hpc hp hoffer
              (hsame.trans hversions)
          · exact Writing.between (accepted ++ [value]) hpc
              (hloop.published _ _ _ hp hoffer) (hsame.trans hversions)
  | storeDone =>
      rw [storeDone_inv h]
      exact hs.of_reader rfl rfl rfl
  | readerClock now =>
      rcases readerClock_inv h with ⟨_, _, rfl⟩
      exact hs.of_reader rfl rfl rfl
  | readStep a =>
      rcases readStep_inv h with ⟨lock, _, hlock, hcase⟩
      rcases ViewSystem.read_eq hlock with ⟨_, _, rfl⟩
      rcases hcase with ⟨_, rfl⟩ | ⟨_, _, rfl⟩
      · exact hs.of_reader rfl rfl rfl
      · exact hs.of_reader rfl rfl rfl
  | loadDone answer =>
      rcases loadDone_inv h with ⟨_, _, rfl⟩
      exact hs.of_reader rfl rfl rfl

theorem reachable (hs : (seqlockHandoff n pace warmup).Reachable s) :
    Writing n s := by
  apply hs.invariant (Writing.between [] rfl ⟨rfl, Nat.zero_le n, ?_⟩ rfl)
    (fun _ _ _ hw h => hw.step h)
  intro habsurd
  exact absurd rfl habsurd

end Writing

/-!
## The recorded times
-/

def Pending (returns : List (ViewRecord Unit 1 (BitVec 64))) (last : Nat) :
    FollowPc -> Prop
  | FollowPc.timing ts =>
      exists e, e ∈ returns ∧ e.value = word64 ts ∧ last ≤ e.version
  | FollowPc.loadDone ts _ =>
      exists e, e ∈ returns ∧ e.value = word64 ts ∧ last ≤ e.version
  | _ => True

/-- The versions of the recorded times, and the version of the last one. -/
structure Picked (warmup : Nat) (us : List Nat) (last : Nat)
    (s : SeqlockThreads) : Prop where
  increasing : (0 :: us).Pairwise (fun u v => u < v)
  bound : forall u, u ∈ 0 :: us -> u ≤ last
  values : List.Forall₂ (fun u (p : BitVec 64 × BitVec 64) =>
    s.lock.versions[u]? = some (word64 p.1)) us s.reader.picked
  lastTs : s.lock.versions[last]? = some (word64 s.reader.lastTs)
  returned : last = 0 ∨ exists e, e ∈ s.lock.returns ∧ e.version = last
  pending : Pending s.lock.returns last s.reader.pc
  seen : s.reader.seen = s.reader.picked.length
  hist : s.reader.hist =
    (s.reader.picked.map (fun p => p.2 - p.1)).drop warmup

theorem word64_injective {v w : BitVec 64} (h : word64 v = word64 w) : v = w :=
  congrFun h 0

namespace Picked

variable {us : List Nat} {last : Nat}

theorem start (warmup : Nat) : Picked warmup [] 0 SeqlockThreads.start where
  increasing := List.pairwise_singleton _ _
  bound := by
    intro u hu
    rw [List.mem_singleton.mp hu]
  values := List.Forall₂.nil
  lastTs := rfl
  returned := Or.inl rfl
  pending := trivial
  seen := rfl
  hist := by simp [SeqlockThreads.start, FollowLoop.start]

theorem advance (hs : Picked warmup us last s)
    (hversions : forall (u : Nat) (v : Payload 1 (BitVec 64)),
      s.lock.versions[u]? = some v -> s'.lock.versions[u]? = some v)
    (hreturns : s'.lock.returns = s.lock.returns)
    (hreader : s'.reader = s.reader) : Picked warmup us last s' := by
  refine ⟨hs.increasing, hs.bound, ?_, ?_, ?_, ?_, ?_, ?_⟩
  · rw [hreader]
    exact hs.values.imp (fun u p hget => hversions u _ hget)
  · rw [hreader]
    exact hversions _ _ hs.lastTs
  · rw [hreturns]
    exact hs.returned
  · rw [hreturns, hreader]
    exact hs.pending
  · rw [hreader]
    exact hs.seen
  · rw [hreader]
    exact hs.hist

theorem of_pc (hs : Picked warmup us last s) {pc : FollowPc}
    (hpending : Pending s.lock.returns last pc) :
    Picked warmup us last { s with reader := { s.reader with pc := pc } } :=
  ⟨hs.increasing, hs.bound, hs.values, hs.lastTs, hs.returned, hpending,
    hs.seen, hs.hist⟩

theorem readStep (hs : Picked warmup us last s)
    (hreach' : (viewMachine Unit (word64 0)).Reachable s'.lock)
    (hfew : s'.lock.versions.length ≤ 2 ^ 63) {a : ViewReadAction 1}
    (h : s.readStep a = some s') : Picked warmup us last s' := by
  rcases readStep_inv h with ⟨lock, _, hlock, hcase⟩
  have hversions : lock.versions = s.lock.versions := by
    rcases ViewSystem.read_eq hlock with ⟨_, _, rfl⟩
    rfl
  have hver : forall (u : Nat) (v : Payload 1 (BitVec 64)),
      s.lock.versions[u]? = some v -> lock.versions[u]? = some v := by
    intro u v hget
    rw [hversions]
    exact hget
  rcases hcase with ⟨hreturns, rfl⟩ | ⟨e, hreturns, rfl⟩
  · exact hs.advance hver hreturns rfl
  · have hordered :=
      ((ViewSystem.ReadersOk.reachable hreach').returns hfew).ordered
    change lock.returns.Pairwise _ at hordered
    rw [hreturns] at hordered
    have hle : last ≤ e.version := by
      rcases hs.returned with hzero | ⟨e₀, he₀, hlast⟩
      · rw [hzero]
        exact Nat.zero_le _
      · rw [← hlast]
        exact (List.pairwise_append.mp hordered).right.right e₀ he₀ e
          (List.mem_singleton.mpr rfl) rfl
    refine ⟨hs.increasing, hs.bound, ?_, hver _ _ hs.lastTs, ?_, ?_, hs.seen,
      hs.hist⟩
    · exact hs.values.imp (fun u p hget => hver u _ hget)
    · rcases hs.returned with hzero | ⟨e₀, he₀, hlast⟩
      · exact Or.inl hzero
      · refine Or.inr ⟨e₀, ?_, hlast⟩
        show e₀ ∈ lock.returns
        rw [hreturns]
        exact List.mem_append_left _ he₀
    · refine ⟨e, ?_, (LatencyLoop.word64_zero e.value).symm, hle⟩
      show e ∈ lock.returns
      rw [hreturns]
      exact List.mem_append_right _ (List.mem_singleton.mpr rfl)

theorem loadDone (hs : Picked warmup us last s)
    (hreturns : ViewSystem.ReturnsOk s.lock) {answer : Bool}
    (h : s.loadDone warmup answer = some s') :
    exists us last, Picked warmup us last s' := by
  rcases loadDone_inv h with ⟨c, hc, rfl⟩
  unfold FollowLoop.loaded at hc
  split at hc
  · rename_i ts now hpc
    have hpending := hs.pending
    rw [hpc] at hpending
    rcases hpending with ⟨e, he, hvalue, hle⟩
    split at hc
    · cases hc
      exact ⟨us, last, hs.of_pc trivial⟩
    · split at hc
      · cases hc
        exact ⟨us, last, hs.of_pc trivial⟩
      · rename_i hnew
        cases hc
        have hversion := hreturns.value e he
        rw [hvalue] at hversion
        have hlt : last < e.version := by
          apply Nat.lt_of_le_of_ne hle
          intro heq
          have hsame := hs.lastTs
          rw [heq, hversion] at hsame
          exact hnew (word64_injective (Option.some.inj hsame))
        refine ⟨us ++ [e.version], e.version, ?_, ?_, ?_, hversion,
          Or.inr ⟨e, he, rfl⟩, trivial, ?_, ?_⟩
        · rw [← List.cons_append]
          refine List.pairwise_append.mpr
            ⟨hs.increasing, List.pairwise_singleton _ _, ?_⟩
          intro u hu v hv
          rw [List.mem_singleton.mp hv]
          exact Nat.lt_of_le_of_lt (hs.bound u hu) hlt
        · intro u hu
          rw [← List.cons_append] at hu
          rcases List.mem_append.mp hu with hold | hnew
          · exact Nat.le_trans (hs.bound u hold) hle
          · rw [List.mem_singleton.mp hnew]
        · exact List.rel_append hs.values
            (List.Forall₂.cons hversion List.Forall₂.nil)
        · show s.reader.seen + 1 = (s.reader.picked ++ [(ts, now)]).length
          rw [List.length_append, hs.seen]
          rfl
        · show (if warmup ≤ s.reader.seen then s.reader.hist ++ [now - ts]
            else s.reader.hist) = _
          rw [hs.hist, hs.seen, List.map_append, List.map_singleton,
            drop_concat, List.length_map]
  · cases hc

theorem step (hs : Picked warmup us last s)
    (hreach : (seqlockHandoff n pace warmup).Reachable s) (hn : n < 2 ^ 63)
    {a : SeqlockThreadAction} (h : s.step n pace warmup a = some s') :
    exists us last, Picked warmup us last s' := by
  have hreach' : (seqlockHandoff n pace warmup).Reachable s' := hreach.step h
  have hfew : forall {t}, (seqlockHandoff n pace warmup).Reachable t ->
      t.lock.versions.length ≤ 2 ^ 63 :=
    fun ht => Nat.le_trans (Writing.reachable ht).length_le hn
  cases a with
  | writerClock tsc =>
      rcases writerClock_inv h with ⟨_, _, _, rfl⟩
      exact ⟨us, last, hs.advance (fun _ _ hget => hget) rfl rfl⟩
  | write k =>
      rcases write_inv h with ⟨value, lock, _, hlock, rfl⟩
      have hadvances := ViewSystem.step_advances hlock
      exact ⟨us, last, hs.advance hadvances.version
        (hadvances.returns (fun _ _ heq => by cases heq)) rfl⟩
  | writeStep a =>
      rcases writeStep_inv h with ⟨lock, hlock, _, hreturns, _, hcase⟩
      have hversion := (ViewSystem.step_advances hlock).version
      rcases hcase with ⟨_, rfl⟩ | ⟨_, rfl⟩
      · exact ⟨us, last, hs.advance hversion hreturns rfl⟩
      · exact ⟨us, last, hs.advance hversion hreturns rfl⟩
  | storeDone =>
      rw [storeDone_inv h]
      exact ⟨us, last, hs.advance (fun _ _ hget => hget) rfl rfl⟩
  | readerClock now =>
      rcases readerClock_inv h with ⟨ts, hpc, rfl⟩
      have hpending := hs.pending
      rw [hpc] at hpending
      exact ⟨us, last, hs.of_pc hpending⟩
  | readStep a =>
      exact ⟨us, last,
        hs.readStep (lock_reachable hreach') (hfew hreach') h⟩
  | loadDone answer =>
      exact hs.loadDone ((ViewSystem.ReadersOk.reachable
        (lock_reachable hreach)).returns (hfew hreach)) h

theorem reachable (hs : (seqlockHandoff n pace warmup).Reachable s)
    (hn : n < 2 ^ 63) : exists us last, Picked warmup us last s := by
  apply hs.invariant_of_reachable (P := fun s =>
    exists us last, Picked warmup us last s) ⟨[], 0, start warmup⟩
  rintro s a s' hreach ⟨us, last, hpicked⟩ h
  exact hpicked.step hreach hn h

theorem length_le (hs : Picked warmup us last s) :
    us.length + 1 ≤ s.lock.versions.length := by
  have hlast : last < s.lock.versions.length :=
    (List.getElem?_eq_some_iff.mp hs.lastTs).choose
  have hnodup : (0 :: us).Nodup := hs.increasing.imp (fun h => Nat.ne_of_lt h)
  have hsubset : (0 :: us) ⊆ List.range s.lock.versions.length := by
    intro u hu
    exact List.mem_range.mpr (Nat.lt_of_le_of_lt (hs.bound u hu) hlast)
  have hle := (List.subperm_of_subset hnodup hsubset).length_le
  rw [List.length_range] at hle
  exact hle

end Picked

/--
The times that the reader records are those of versions of the lock, each newer
than the one before and none of them the initial value, and each latency is that
of its own time.
-/
theorem seqlock_handoff_follows {s : SeqlockThreads}
    (hs : (seqlockHandoff n pace warmup).Reachable s) (hn : n < 2 ^ 63) :
    (exists us : List Nat, (0 :: us).Pairwise (fun u v => u < v) ∧
      List.Forall₂ (fun u (p : BitVec 64 × BitVec 64) =>
        s.lock.versions[u]? = some (word64 p.1)) us s.reader.picked) ∧
    s.reader.seen = s.reader.picked.length ∧
    s.reader.seen ≤ n ∧
    s.reader.hist =
      (s.reader.picked.map (fun p => p.2 - p.1)).drop warmup := by
  rcases Picked.reachable hs hn with ⟨us, last, hpicked⟩
  refine ⟨⟨us, hpicked.increasing, hpicked.values⟩, hpicked.seen, ?_,
    hpicked.hist⟩
  have hlength := hpicked.values.length_eq
  have hle := Nat.le_trans hpicked.length_le (Writing.reachable hs).length_le
  rw [hpicked.seen, ← hlength]
  exact Nat.le_of_succ_le_succ hle

def writeAt (ts : BitVec 64) (k : Nat) : List SeqlockThreadAction :=
  [SeqlockThreadAction.writerClock ts, SeqlockThreadAction.write k,
    SeqlockThreadAction.writeStep ViewAction.writeStoreOdd,
    SeqlockThreadAction.writeStep ViewAction.writeFence,
    SeqlockThreadAction.writeStep (ViewAction.writeWord (Fin.last 0)),
    SeqlockThreadAction.writeStep ViewAction.writeStoreEven]

def readAt (k u : Nat) (now : BitVec 64) : List SeqlockThreadAction :=
  [ViewReadAction.call, ViewReadAction.loadSeq k,
    ViewReadAction.loadWord (Fin.last 0) u, ViewReadAction.fence, ViewReadAction.loadSeq k].map
      SeqlockThreadAction.readStep ++
    [SeqlockThreadAction.readerClock now, SeqlockThreadAction.loadDone false]

/-- The first time is read twice and recorded once, the second one is timed. -/
theorem seqlock_handoff_follows_twice :
    exists s, (seqlockHandoff 2 5 1).run
        (writeAt 10 0 ++ readAt 2 1 13 ++ readAt 2 1 14 ++
          [SeqlockThreadAction.writerClock 15] ++ writeAt 20 2 ++
          [SeqlockThreadAction.writerClock 26, SeqlockThreadAction.storeDone] ++
          readAt 4 2 27) = some s ∧
      s.reader.hist = [7] ∧ s.reader.seen = 2 ∧ s.reader.seen ≤ 2 ∧
      s.reader.seen = s.reader.picked.length := by
  apply Machine.exists_run_of_map
    (fun s => (s.reader.hist, s.reader.seen)) ([7], 2) (by decide +kernel)
  intro s hrun hshown
  simp only [Prod.mk.injEq] at hshown
  have hfollows := seqlock_handoff_follows ⟨_, hrun⟩ (by decide)
  exact ⟨hshown.left, hshown.right, hfollows.right.right.left,
    hfollows.right.left⟩

end SeqlockThreads
end Bench
end LowLatency
