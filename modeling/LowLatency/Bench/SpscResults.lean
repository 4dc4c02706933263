import LowLatency.Bench.SpscStream

/-!
# The handoff and the throttled bench

Both benches hand over `n` items, in order and under release and acquire.  The
throttled one gives each item the time of the schedule, and an item is never
stamped before its time.
-/

namespace LowLatency
namespace Bench

open Foundation Spsc

/-!
## Handoff
-/

structure HandoffLoop.Counted (n : Nat) (p : HandoffLoop)
    (accepted : List (BitVec 64)) : Prop where
  length : accepted.length = p.i
  le : p.i ≤ n
  offered : p.ts.isSome = true -> p.i < n

theorem HandoffLoop.keeps (n : Nat) :
    (handoffLoop n).Keeps (HandoffLoop.Counted n) where
  start := ⟨rfl, Nat.zero_le n, by intro habsurd; cases habsurd⟩
  clock := by
    intro p accepted tsc p' hp h
    simp only [handoffLoop] at h
    split at h
    · rename_i hboth
      have hlt : p.i < n := of_decide_eq_true (Bool.and_eq_true_iff.mp hboth).left
      rw [← Option.some.inj h]
      exact ⟨hp.length, hp.le, fun _ => hlt⟩
    · cases h
  refused := by
    intro p accepted item hp _
    exact ⟨hp.length, hp.le, by intro habsurd; cases habsurd⟩
  accepted := by
    intro p accepted item hp hoffer
    have hts : p.ts = some item := hoffer
    have hlt := hp.offered (by rw [hts]; rfl)
    refine ⟨?_, hlt, by intro habsurd; cases habsurd⟩
    show (accepted ++ [item]).length = p.i + 1
    rw [List.length_append, hp.length]
    rfl

namespace SpscThreads

variable {W : Nat} {cap : Capacity W} {n warmup : Nat}

/--
When the consumer thread of `run_spsc_handoff` has ended, it has popped all `n`
timestamps in the order in which they were pushed, has read the clock once for
each, and has recorded the latency of each after the first `warmup`.  No access to the queue was a data race, and
nothing is left to destroy when its memory is released.
-/
theorem handoff_complete
    {s : SpscThreads cap (handoffLoop n) (BitVec 64)}
    (hs : (runSpscHandoff cap n warmup).Reachable s)
    (hpc : s.pc = PopLoopPc.finished) :
    s.queue.accepted.length = n ∧
      s.queue.popped = s.queue.accepted.map some ∧ s.seen = n ∧
      s.clocks.length = n ∧ s.samples.length = n - warmup ∧
      (forall k ts now, s.queue.accepted[warmup + k]? = some ts ->
        s.clocks[warmup + k]? = some now ->
          s.samples[k]? = some (some (now - ts))) ∧
      s.queue.threads.racy = false ∧ s.queue.usedFreed = false ∧
      (s.queue.disposal = DropPc.freed -> s.queue.destroyed = []) := by
  have hr := received hs hpc
  have hcounted := (Stream.reachable (HandoffLoop.keeps n) hs).producer
  have hend : s.producer.i = n := by
    have hfinished := hr.finished
    exact beq_iff_eq.mp (Bool.and_eq_true_iff.mp hfinished).left
  have hlength : s.queue.accepted.length = n := hcounted.length.trans hend
  refine ⟨hlength, hr.popped, hr.seen.trans hlength, hr.clocks.trans hlength,
    ?_, ?_, hr.clean.left, hr.clean.right, hr.freed⟩
  · rw [hr.samples, List.length_map, List.length_drop, List.length_zipWith,
      hr.clocks, Nat.min_self, hlength]
  · intro k ts now hts hnow
    rw [hr.samples, List.getElem?_map, List.getElem?_drop,
      List.getElem?_zipWith_eq_some.mpr ⟨ts, now, hts, hnow, rfl⟩]
    rfl

/-- Two items through one slot; the first is the warmup, and the queue is freed. -/
theorem handoff_complete_two :
    exists s : SpscThreads (⟨1#1, 0, rfl⟩ : Capacity 1) (handoffLoop 2)
        (BitVec 64),
      (runSpscHandoff (⟨1#1, 0, rfl⟩ : Capacity 1) 2 1).run
        [ThreadAction.clock 10, ThreadAction.push,
          ThreadAction.pushStep ViewAction.pushWriteSlot,
          ThreadAction.pushStep ViewAction.pushStoreTail,
          ThreadAction.pop, ThreadAction.popStep (ViewAction.popLoadTail 1),
          ThreadAction.popStep ViewAction.popReadSlot,
          ThreadAction.popStep ViewAction.popStoreHead,
          ThreadAction.record 15, ThreadAction.clock 20, ThreadAction.push,
          ThreadAction.pushStep (ViewAction.pushLoadHead 0),
          ThreadAction.clock 30, ThreadAction.push,
          ThreadAction.pushStep (ViewAction.pushLoadHead 1),
          ThreadAction.pushStep ViewAction.pushWriteSlot, ThreadAction.pop,
          ThreadAction.popStep (ViewAction.popLoadTail 1),
          ThreadAction.pushStep ViewAction.pushStoreTail,
          ThreadAction.storeDone, ThreadAction.loadDone 1, ThreadAction.pop,
          ThreadAction.popStep (ViewAction.popLoadTail 2),
          ThreadAction.popStep ViewAction.popReadSlot,
          ThreadAction.popStep ViewAction.popStoreHead,
          ThreadAction.record 37, ThreadAction.pop,
          ThreadAction.popStep (ViewAction.popLoadTail 2),
          ThreadAction.drop (ViewAction.dropHandle Side.producer),
          ThreadAction.drop (ViewAction.dropHandle Side.consumer),
          ThreadAction.drop ViewAction.dropFence,
          ThreadAction.drop (ViewAction.dropLoadHead 2),
          ThreadAction.drop (ViewAction.dropLoadTail 2),
          ThreadAction.drop ViewAction.dropFree] = some s ∧
      s.queue.disposal = DropPc.freed ∧ s.samples = [some 7] ∧ s.seen = 2 ∧
      s.queue.popped = s.queue.accepted.map some ∧
      s.queue.threads.racy = false ∧ s.queue.destroyed = [] := by
  apply Machine.exists_run_of_map
    (fun s => (s.pc, s.queue.disposal, s.samples))
    (PopLoopPc.finished, DropPc.freed, [some 7]) (by decide +kernel)
  intro s hrun hshown
  simp only [Prod.mk.injEq] at hshown
  rcases hshown with ⟨hpc, hfreed, hsamples⟩
  rcases handoff_complete ⟨_, hrun⟩ hpc with
    ⟨_, hpopped, hseen, _, _, _, hracy, _, hdestroyed⟩
  exact ⟨hfreed, hsamples, hseen, hpopped, hracy, hdestroyed hfreed⟩

end SpscThreads

/-!
## The schedule of the throttled producer
-/

def dueQ32 (dt : BitVec 128) (tStart : BitVec 64) (k : Nat) : BitVec 128 :=
  BitVec.ofNat 128 (tStart.toNat * 2 ^ 32 + k * dt.toNat)

theorem dueQ32_zero (dt : BitVec 128) (tStart : BitVec 64) :
    dueQ32 dt tStart 0 = tStart.setWidth 128 <<< 32 := by
  have hlt := tStart.isLt
  apply BitVec.eq_of_toNat_eq
  rw [toNat_shifted, dueQ32, Nat.zero_mul, Nat.add_zero, BitVec.toNat_ofNat,
    Nat.mod_eq_of_lt (by lia)]

theorem dueQ32_succ (dt : BitVec 128) (tStart : BitVec 64) (k : Nat) :
    dueQ32 dt tStart (k + 1) = dueQ32 dt tStart k + dt := by
  have hdt : dt = BitVec.ofNat 128 dt.toNat := by simp
  conv_rhs => rw [hdt]
  rw [dueQ32, dueQ32, BitVec.ofNat_add_ofNat, Nat.succ_mul, Nat.add_assoc]
  simp

theorem toNat_scheduleTsc_dueQ32 {tscHz rateHz tStart : BitVec 64} {k : Nat}
    (hrate : 1 ≤ rateHz.toNat) (hfit : ideal tscHz rateHz tStart k < 2 ^ 64) :
    (scheduleTsc (dueQ32 (dtQ32 tscHz rateHz) tStart k)).toNat =
      ticks tscHz rateHz tStart k := by
  have hfloor : ⌊ideal tscHz rateHz tStart k⌋₊ < 2 ^ 64 := by
    rw [Nat.floor_lt' (by lia)]
    exact_mod_cast hfit
  have hticks := Nat.lt_of_le_of_lt (ticks_le_floor tscHz tStart hrate k) hfloor
  have htime : (dueQ32 (dtQ32 tscHz rateHz) tStart k).toNat =
      timeQ32 tscHz rateHz tStart k := by
    unfold ticks at hticks
    rw [dueQ32, BitVec.toNat_ofNat]
    exact Nat.mod_eq_of_lt (by unfold timeQ32 at hticks; lia)
  rw [toNat_scheduleTsc (by rw [htime]; exact hticks), htime]
  rfl

namespace ThrottledLoop

def Due (dt : BitVec 128) (n : Nat) (p : ThrottledLoop)
    (schedule : BitVec 64) : Prop :=
  p.i < n ∧ p.scheduleQ32 = dueQ32 dt p.tStart (p.i + 1) ∧
    schedule = scheduleTsc p.scheduleQ32

def AtPhase (dt : BitVec 128) (n : Nat) (p : ThrottledLoop) : Prop :=
  match p.pc with
  | ThrottledPc.starting => p.i = 0
  | ThrottledPc.waiting schedule => Due dt n p schedule
  | ThrottledPc.stamping schedule =>
      Due dt n p schedule ∧ (p.ordered = true -> schedule ≤ p.last)
  | ThrottledPc.pushing pending _ =>
      Due dt n p pending.scheduleTsc ∧
        (p.ordered = true -> pending.scheduleTsc ≤ pending.pushTsc)
  | ThrottledPc.ending => p.i = n
  | ThrottledPc.ended _ => p.i = n

structure Counted (dt : BitVec 128) (n : Nat) (p : ThrottledLoop)
    (accepted : List Stamped) : Prop where
  length : accepted.length = p.i
  le : p.i ≤ n
  full : p.fullPushes ≤ p.i
  phase : AtPhase dt n p
  schedule : accepted.map Stamped.scheduleTsc =
    (List.range p.i).map (fun k => scheduleTsc (dueQ32 dt p.tStart (k + 1)))
  late : p.ordered = true -> forall item, item ∈ accepted ->
    item.scheduleTsc ≤ item.pushTsc

variable {dt : BitVec 128} {n : Nat} {p : ThrottledLoop} {accepted : List Stamped}

theorem atPhase_next (hle : p.i ≤ n) (htime : p.scheduleQ32 = dueQ32 dt p.tStart p.i) :
    AtPhase dt n (next dt n p) := by
  unfold next
  split
  · rename_i hlt
    refine ⟨hlt, ?_, rfl⟩
    show p.scheduleQ32 + dt = dueQ32 dt p.tStart (p.i + 1)
    rw [htime, dueQ32_succ]
  · rename_i hlast
    exact Nat.le_antisymm hle (Nat.le_of_not_lt hlast)

theorem next_counts (dt : BitVec 128) (n : Nat) (p : ThrottledLoop) :
    (next dt n p).i = p.i ∧ (next dt n p).tStart = p.tStart ∧
      (next dt n p).fullPushes = p.fullPushes ∧
      (next dt n p).ordered = p.ordered := by
  unfold next
  split <;> exact ⟨rfl, rfl, rfl, rfl⟩

theorem Counted.next (hlength : accepted.length = p.i) (hle : p.i ≤ n)
    (hfull : p.fullPushes ≤ p.i)
    (htime : p.scheduleQ32 = dueQ32 dt p.tStart p.i)
    (hschedule : accepted.map Stamped.scheduleTsc =
      (List.range p.i).map (fun k => scheduleTsc (dueQ32 dt p.tStart (k + 1))))
    (hlate : p.ordered = true -> forall item, item ∈ accepted ->
      item.scheduleTsc ≤ item.pushTsc) :
    Counted dt n (p.next dt n) accepted := by
  rcases next_counts dt n p with ⟨hi, hstart, hcount, hordered⟩
  refine ⟨?_, ?_, ?_, atPhase_next hle htime, ?_, ?_⟩
  · rw [hi]
    exact hlength
  · rw [hi]
    exact hle
  · rw [hi, hcount]
    exact hfull
  · rw [hi, hstart]
    exact hschedule
  · rw [hordered]
    exact hlate

theorem ordered_of_reading {tsc : BitVec 64}
    (h : (p.reading tsc).ordered = true) :
    p.ordered = true ∧ p.last ≤ tsc := by
  rcases Bool.and_eq_true_iff.mp h with ⟨hordered, hle⟩
  exact ⟨hordered, of_decide_eq_true hle⟩

theorem Counted.clock {p' : ThrottledLoop} {tsc : BitVec 64}
    (hp : Counted dt n p accepted) (h : p.clock dt n tsc = some p') :
    Counted dt n p' accepted := by
  have hphase := hp.phase
  unfold AtPhase at hphase
  unfold ThrottledLoop.clock at h
  have hlate : (p.reading tsc).ordered = true -> forall item,
      item ∈ accepted -> item.scheduleTsc ≤ item.pushTsc :=
    fun hordered => hp.late (ordered_of_reading hordered).left
  split at h
  · rename_i hpc
    rw [hpc] at hphase
    have hnil : accepted = [] := by
      rw [← List.length_eq_zero_iff, hp.length]
      exact hphase
    rw [← Option.some.inj h]
    refine Counted.next hp.length hp.le hp.full ?_ ?_ hlate
    · show tsc.setWidth 128 <<< 32 = dueQ32 dt tsc p.i
      have hzero : p.i = 0 := hphase
      rw [hzero, dueQ32_zero]
    · have hzero : p.i = 0 := hphase
      show _ = (List.range p.i).map _
      rw [hnil, hzero]
      rfl
  · rename_i schedule hpc
    rw [hpc] at hphase
    split at h
    · rename_i hdue
      rw [← Option.some.inj h]
      exact ⟨hp.length, hp.le, hp.full, ⟨hphase, fun _ => hdue⟩, hp.schedule,
        hlate⟩
    · rw [← Option.some.inj h]
      refine ⟨hp.length, hp.le, hp.full, ?_, hp.schedule, hlate⟩
      unfold AtPhase
      rw [show (p.reading tsc).pc = ThrottledPc.waiting schedule from hpc]
      exact hphase
  · rename_i schedule hpc
    rw [hpc] at hphase
    rw [← Option.some.inj h]
    refine ⟨hp.length, hp.le, hp.full, ⟨hphase.left, ?_⟩, hp.schedule, hlate⟩
    intro hordered
    rcases ordered_of_reading hordered with ⟨hbefore, hle⟩
    exact BitVec.le_trans (hphase.right hbefore) hle
  · cases h
  · rename_i hpc
    rw [hpc] at hphase
    rw [← Option.some.inj h]
    exact ⟨hp.length, hp.le, hp.full, hphase, hp.schedule, hlate⟩
  · cases h

theorem pushing_of_offer {item : Stamped}
    (h : (throttledLoop dt n).offer p = some item) :
    exists wasFull, p.pc = ThrottledPc.pushing item wasFull := by
  have hoffer : p.offer = some item := h
  unfold ThrottledLoop.offer at hoffer
  split at hoffer
  · rename_i pending wasFull hpc
    rw [← Option.some.inj hoffer]
    exact ⟨wasFull, hpc⟩
  · cases hoffer

theorem keeps (dt : BitVec 128) (n : Nat) :
    (throttledLoop dt n).Keeps (Counted dt n) where
  start :=
    ⟨rfl, Nat.zero_le n, Nat.le_refl 0, rfl, rfl, by
      intro _ item hitem
      cases hitem⟩
  clock := fun _ _ _ _ hp h => hp.clock h
  refused := by
    intro p accepted item hp hoffer
    rcases pushing_of_offer hoffer with ⟨wasFull, hpc⟩
    have hphase := hp.phase
    unfold AtPhase at hphase
    rw [hpc] at hphase
    have hanswer : (throttledLoop dt n).answered p (some item) =
        { p with pc := ThrottledPc.pushing item true } := by
      simp only [throttledLoop, ThrottledLoop.answered, hpc]
    rw [hanswer]
    exact ⟨hp.length, hp.le, hp.full, hphase, hp.schedule, hp.late⟩
  accepted := by
    intro p accepted item hp hoffer
    rcases pushing_of_offer hoffer with ⟨wasFull, hpc⟩
    have hphase := hp.phase
    unfold AtPhase at hphase
    rw [hpc] at hphase
    rcases hphase with ⟨⟨hmore, htime, hschedule⟩, hlate⟩
    have hanswer : (throttledLoop dt n).answered p none =
        next dt n { p with
          i := p.i + 1
          fullPushes := if wasFull then p.fullPushes + 1 else p.fullPushes } := by
      simp only [throttledLoop, ThrottledLoop.answered, hpc]
    rw [hanswer]
    refine Counted.next ?_ hmore ?_ htime ?_ ?_
    · rw [List.length_append, hp.length]
      rfl
    · have hfull := hp.full
      show (if wasFull then p.fullPushes + 1 else p.fullPushes) ≤ p.i + 1
      split <;> lia
    · show _ = (List.range (p.i + 1)).map _
      rw [List.map_append, hp.schedule, List.range_succ, List.map_append,
        List.map_singleton, List.map_singleton, hschedule, htime]
    · intro hordered other hother
      rcases List.mem_append.mp hother with hold | hnew
      · exact hp.late hordered other hold
      · rw [List.mem_singleton.mp hnew]
        exact hlate hordered

end ThrottledLoop

/-!
## Throttled
-/

namespace SpscThreads

variable {W : Nat} {cap : Capacity W} {n warmup : Nat}
variable {tscHz rateHz : BitVec 64} {captureSys : Bool}
variable {s : SpscThreads cap (throttledLoop (dtQ32 tscHz rateHz) n)
  (BitVec 64 × Option (BitVec 64))}

theorem counted_of_finished
    (hs : (measureAtRate cap tscHz rateHz n warmup captureSys).Reachable s)
    (hpc : s.pc = PopLoopPc.finished) :
    s.producer.i = n ∧ ThrottledLoop.Counted (dtQ32 tscHz rateHz) n s.producer
      s.queue.accepted := by
  have hcounted := (Stream.reachable (ThrottledLoop.keeps _ n) hs).producer
  have hfinished : s.producer.finished = true := (received hs hpc).finished
  have hphase := hcounted.phase
  unfold ThrottledLoop.finished at hfinished
  unfold ThrottledLoop.AtPhase at hphase
  refine ⟨?_, hcounted⟩
  split at hfinished
  · rename_i hended
    rw [hended] at hphase
    exact hphase
  · cases hfinished

/--
When the consumer thread of `measure_at_rate` has ended, it has popped all `n` items
in order and recorded those after the first `warmup`; the refused items are counted
at most once each.  Item `k` carries the time of the schedule, as long as the
schedule stays in the range of the clock.
-/
theorem throttled_complete
    (hs : (measureAtRate cap tscHz rateHz n warmup captureSys).Reachable s)
    (hpc : s.pc = PopLoopPc.finished) :
    s.queue.accepted.length = n ∧
      s.queue.popped = s.queue.accepted.map some ∧ s.seen = n ∧
      s.samples.length = n - warmup ∧ s.producer.fullPushes ≤ n ∧
      (1 ≤ rateHz.toNat -> ideal tscHz rateHz s.producer.tStart n < 2 ^ 64 ->
        forall k item, s.queue.accepted[k]? = some item ->
          item.scheduleTsc.toNat =
            ticks tscHz rateHz s.producer.tStart (k + 1)) ∧
      s.queue.threads.racy = false ∧ s.queue.usedFreed = false ∧
      (s.queue.disposal = DropPc.freed -> s.queue.destroyed = []) := by
  have hr := received hs hpc
  rcases counted_of_finished hs hpc with ⟨hend, hcounted⟩
  have hlength : s.queue.accepted.length = n := hcounted.length.trans hend
  refine ⟨hlength, hr.popped, hr.seen.trans hlength, ?_, ?_, ?_, hr.clean.left,
    hr.clean.right, hr.freed⟩
  · rw [hr.samples, List.length_map, List.length_drop, List.length_zipWith,
      hr.clocks, Nat.min_self, hlength]
  · exact Nat.le_trans hcounted.full hcounted.le
  · intro hrate hfit k item hitem
    have hk : k < n := by
      rcases List.getElem?_eq_some_iff.mp hitem with ⟨hlt, _⟩
      rw [← hlength]
      exact hlt
    have hschedule := congrArg (fun l => l[k]?) hcounted.schedule
    simp only [List.getElem?_map, hitem, hend,
      List.getElem?_range hk, Option.map_some] at hschedule
    rw [Option.some.inj hschedule]
    exact toNat_scheduleTsc_dueQ32 hrate
      (lt_of_le_of_lt (ideal_mono hk) hfit)

/-- One item, due at 103, that finds the queue empty. -/
theorem throttled_complete_one :
    exists s : SpscThreads (⟨1#1, 0, rfl⟩ : Capacity 1)
        (throttledLoop (dtQ32 10#64 3#64) 1) (BitVec 64 × Option (BitVec 64)),
      (measureAtRate (⟨1#1, 0, rfl⟩ : Capacity 1) 10#64 3#64 1 0 true).run
        [ThreadAction.clock 100, ThreadAction.clock 101,
          ThreadAction.clock 104, ThreadAction.clock 105, ThreadAction.push,
          ThreadAction.pushStep ViewAction.pushWriteSlot,
          ThreadAction.pushStep ViewAction.pushStoreTail,
          ThreadAction.clock 106, ThreadAction.storeDone, ThreadAction.pop,
          ThreadAction.popStep (ViewAction.popLoadTail 0),
          ThreadAction.loadDone 1, ThreadAction.pop,
          ThreadAction.popStep (ViewAction.popLoadTail 1),
          ThreadAction.popStep ViewAction.popReadSlot,
          ThreadAction.popStep ViewAction.popStoreHead,
          ThreadAction.record 110, ThreadAction.pop,
          ThreadAction.popStep (ViewAction.popLoadTail 1)] = some s ∧
      s.queue.accepted = [⟨103, 105⟩] ∧ s.seen = 1 ∧
      s.producer.fullPushes ≤ 1 ∧ ticks 10#64 3#64 100#64 1 = 103 := by
  apply Machine.exists_run_of_map
    (fun s => (s.pc, s.queue.accepted, s.producer.tStart))
    (PopLoopPc.finished, [(⟨103, 105⟩ : Stamped)], 100#64)
    (by decide +kernel)
  intro s hrun hshown
  simp only [Prod.mk.injEq] at hshown
  rcases hshown with ⟨hpc, haccepted, hstart⟩
  rcases throttled_complete ⟨_, hrun⟩ hpc with
    ⟨_, _, hseen, _, hfull, hschedule, _⟩
  have hfit : ideal 10#64 3#64 s.producer.tStart 1 < 2 ^ 64 := by
    rw [hstart]
    norm_num [ideal]
  have hticks := hschedule (by decide) hfit 0 ⟨103, 105⟩ (by rw [haccepted]; rfl)
  rw [hstart] at hticks
  exact ⟨haccepted, hseen, hfull, hticks.symm⟩

end SpscThreads
end Bench
end LowLatency
