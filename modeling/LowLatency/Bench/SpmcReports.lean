import LowLatency.Bench.SpmcResults
import Mathlib.Algebra.Order.BigOperators.Group.List

/-!
# The reports of the timed SPMC benches

The lapped bench and the capacity sweep publish for a window of time, the items
being numbers.  They count what they were answered after the warmup, and never
more than was published.
-/

namespace LowLatency
namespace Bench

open Foundation Spmc

variable {W m : Nat} {Word : Type}

/-!
## The producer loop
-/

/-- The item at position `k` is the word of `k`. -/
structure WindowLoop.Counted (p : WindowLoop)
    (published : List (Payload 1 (BitVec 64))) : Prop where
  next : p.i = BitVec.ofNat 64 published.length
  items : forall k item, published[k]? = some item ->
    item = word64 (BitVec.ofNat 64 k)

theorem WindowLoop.publishes (runTicks : BitVec 64) (retries : Bool) :
    (windowLoop runTicks retries).Publishes WindowLoop.Counted where
  start := ⟨rfl, by
    intro k item hitem
    cases hitem⟩
  clock := by
    rintro ⟨i, pc⟩ published tsc p' hp h
    change WindowLoop.clock runTicks ⟨i, pc⟩ tsc = some p' at h
    unfold WindowLoop.clock at h
    cases pc with
    | starting =>
        rw [← Option.some.inj h]
        exact ⟨hp.next, hp.items⟩
    | checking stopAt =>
        simp only at h
        split at h
        · rw [← Option.some.inj h]
          exact ⟨hp.next, hp.items⟩
        · rw [← Option.some.inj h]
          exact ⟨hp.next, hp.items⟩
    | publishing stopAt => cases h
    | closed => cases h
  published := by
    rintro ⟨i, pc⟩ published item hp hoffer
    change WindowLoop.offer ⟨i, pc⟩ = some item at hoffer
    cases pc with
    | starting | checking | closed => cases hoffer
    | publishing stopAt =>
        have hitem : word64 i = item := Option.some.inj hoffer
        have hanswered : (windowLoop runTicks retries).answered
            ⟨i, WindowPc.publishing stopAt⟩ none =
            ⟨i + 1, WindowPc.checking stopAt⟩ := by
          cases retries <;> rfl
        rw [hanswered]
        have hi : i = BitVec.ofNat 64 published.length := hp.next
        constructor
        · show i + 1 = _
          rw [hi, List.length_append]
          exact (BitVec.ofNat_add published.length 1).symm
        · intro k other hother
          rw [List.getElem?_append] at hother
          split at hother
          · exact hp.items k other hother
          · rename_i hge
            rw [List.getElem?_singleton] at hother
            split at hother
            · rename_i hzero
              have hk : k = published.length := by lia
              rw [← Option.some.inj hother, ← hitem, hi, hk]
            · cases hother

/-!
## The counts of the timed benches
-/

structure Tally.Counts (warmup : Nat)
    (answers : List (ReadResult W 1 (BitVec 64))) (t : Tally) : Prop where
  seen : t.seen = (heard answers).length
  valued : t.values = (Bench.values (recorded warmup answers)).length
  lapped : t.lapped = (skips (recorded warmup answers)).length
  hist : t.valueHist.length = t.values

namespace Tally.Counts

variable {warmup : Nat} {answers : List (ReadResult W 1 (BitVec 64))}
variable {t : Tally}

theorem start (W warmup : Nat) :
    Tally.Counts (W := W) warmup [] Tally.empty :=
  ⟨rfl, by simp [recorded, heard, Bench.values, Tally.empty],
    by simp [recorded, heard, skips, Tally.empty], rfl⟩

theorem empty (h : t.Counts warmup answers) :
    t.Counts warmup (answers ++ [ReadResult.empty]) := by
  constructor
  · rw [heard_empty]
    exact h.seen
  · rw [recorded_empty]
    exact h.valued
  · rw [recorded_empty]
    exact h.lapped
  · exact h.hist

theorem value (h : t.Counts warmup answers) (v : Payload 1 (BitVec 64))
    (dt : BitVec 64) :
    (t.value warmup dt).Counts warmup (answers ++ [ReadResult.value v]) := by
  have hseen : t.seen + 1 =
      (heard (answers ++ [ReadResult.value v])).length := by
    rw [heard_value, List.length_append, h.seen]
    rfl
  have hrecorded : recorded warmup _ = _ :=
    recorded_heard (heard_value answers v)
  rw [← h.seen] at hrecorded
  unfold Tally.value
  split
  · rename_i hwarm
    rw [if_pos hwarm] at hrecorded
    refine ⟨hseen, ?_, ?_, ?_⟩
    · rw [hrecorded, values_append, List.length_append, ← h.valued]
      rfl
    · rw [hrecorded, skips_append, List.length_append, ← h.lapped]
      rfl
    · rw [List.length_append, h.hist]
      rfl
  · rename_i hcold
    rw [if_neg hcold] at hrecorded
    refine ⟨hseen, ?_, ?_, h.hist⟩
    · rw [hrecorded]
      exact h.valued
    · rw [hrecorded]
      exact h.lapped

theorem lap (h : t.Counts warmup answers) (k : BitVec W) :
    (t.lap warmup).Counts warmup (answers ++ [ReadResult.lapped k]) := by
  have hseen : t.seen + 1 =
      (heard (answers ++ [ReadResult.lapped k])).length := by
    rw [heard_lapped, List.length_append, h.seen]
    rfl
  have hrecorded : recorded warmup _ = _ :=
    recorded_heard (heard_lapped answers k)
  rw [← h.seen] at hrecorded
  unfold Tally.lap
  split
  · rename_i hwarm
    rw [if_pos hwarm] at hrecorded
    refine ⟨hseen, ?_, ?_, h.hist⟩
    · rw [hrecorded, values_append, List.length_append, ← h.valued]
      rfl
    · rw [hrecorded, skips_append, List.length_append, ← h.lapped]
      rfl
  · rename_i hcold
    rw [if_neg hcold] at hrecorded
    refine ⟨hseen, ?_, ?_, h.hist⟩
    · rw [hrecorded]
      exact h.valued
    · rw [hrecorded]
      exact h.lapped

end Tally.Counts

/-!
## The times of the lapped bench
-/

/-- The recorded answers, each with the readings of the clock around its call. -/
def recordedTimes (warmup : Nat) (answers : List (ReadResult W m Word))
    (readings : List (BitVec 64 × BitVec 64)) :
    List (ReadResult W m Word × BitVec 64 × BitVec 64) :=
  ((answers.zip readings).filter
    (fun p => p.1.value?.isSome || p.1.skipped?.isSome)).drop warmup

def elapsed (reading : BitVec 64 × BitVec 64) : BitVec 64 :=
  reading.2 - reading.1

/-- The durations of the recorded answers of one kind. -/
def timesOf (kind : ReadResult W m Word -> Bool) (warmup : Nat)
    (answers : List (ReadResult W m Word))
    (readings : List (BitVec 64 × BitVec 64)) : List (BitVec 64) :=
  ((recordedTimes warmup answers readings).filter (fun p => kind p.1)).map
    (fun p => elapsed p.2)

def valueTimes (warmup : Nat) (answers : List (ReadResult W m Word))
    (readings : List (BitVec 64 × BitVec 64)) : List (BitVec 64) :=
  timesOf (fun a => a.value?.isSome) warmup answers readings

def lapTimes (warmup : Nat) (answers : List (ReadResult W m Word))
    (readings : List (BitVec 64 × BitVec 64)) : List (BitVec 64) :=
  timesOf (fun a => a.skipped?.isSome) warmup answers readings

structure Timed (warmup : Nat) (answers : List (ReadResult W m Word))
    (readings : List (BitVec 64 × BitVec 64))
    (valueHist lappedHist : List (BitVec 64)) : Prop where
  length : readings.length = answers.length
  values : valueHist = valueTimes warmup answers readings
  laps : lappedHist = lapTimes warmup answers readings

section Times

variable {warmup : Nat} {answers : List (ReadResult W m Word)}
variable {readings : List (BitVec 64 × BitVec 64)}
variable {kind : ReadResult W m Word -> Bool} {a : ReadResult W m Word}

theorem length_heard_zip (h : readings.length = answers.length) :
    ((answers.zip readings).filter
      (fun p => p.1.value?.isSome || p.1.skipped?.isSome)).length =
        (heard answers).length := by
  have hfst : (answers.zip readings).map Prod.fst = answers :=
    List.map_fst_zip (Nat.le_of_eq h.symm)
  rw [heard, ← List.countP_eq_length_filter, ← List.countP_eq_length_filter]
  conv_rhs => rw [← hfst, List.countP_map]
  rfl

theorem recordedTimes_heard (h : readings.length = answers.length)
    (r : BitVec 64 × BitVec 64)
    (ha : (a.value?.isSome || a.skipped?.isSome) = true) :
    recordedTimes warmup (answers ++ [a]) (readings ++ [r]) =
      if warmup ≤ (heard answers).length then
        recordedTimes warmup answers readings ++ [(a, r)]
      else recordedTimes warmup answers readings := by
  rw [recordedTimes, List.zip_append h.symm, List.filter_append,
    ← length_heard_zip h]
  have hone : ([a].zip [r]).filter
      (fun p => p.1.value?.isSome || p.1.skipped?.isSome) = [(a, r)] :=
    List.filter_cons_of_pos ha
  rw [hone, drop_concat]
  rfl

theorem timesOf_empty (h : readings.length = answers.length)
    (r : BitVec 64 × BitVec 64) :
    timesOf kind warmup (answers ++ [ReadResult.empty]) (readings ++ [r]) =
      timesOf kind warmup answers readings := by
  have hnone : ([(ReadResult.empty : ReadResult W m Word)].zip [r]).filter
      (fun p => p.1.value?.isSome || p.1.skipped?.isSome) = [] :=
    List.filter_cons_of_neg Bool.false_ne_true
  rw [timesOf, recordedTimes, List.zip_append h.symm, List.filter_append,
    hnone, List.append_nil]
  rfl

theorem timesOf_kind (h : readings.length = answers.length)
    (r : BitVec 64 × BitVec 64)
    (ha : (a.value?.isSome || a.skipped?.isSome) = true)
    (hkind : kind a = true) :
    timesOf kind warmup (answers ++ [a]) (readings ++ [r]) =
      if warmup ≤ (heard answers).length then
        timesOf kind warmup answers readings ++ [elapsed r]
      else timesOf kind warmup answers readings := by
  have hone : [(a, r)].filter (fun p => kind p.1) = [(a, r)] :=
    List.filter_cons_of_pos hkind
  rw [timesOf, recordedTimes_heard h r ha]
  split
  · rw [List.filter_append, List.map_append, hone]
    rfl
  · rfl

theorem timesOf_other (h : readings.length = answers.length)
    (r : BitVec 64 × BitVec 64)
    (ha : (a.value?.isSome || a.skipped?.isSome) = true)
    (hkind : ¬ kind a = true) :
    timesOf kind warmup (answers ++ [a]) (readings ++ [r]) =
      timesOf kind warmup answers readings := by
  have hnone : [(a, r)].filter (fun p => kind p.1) = [] :=
    List.filter_cons_of_neg hkind
  rw [timesOf, recordedTimes_heard h r ha]
  split
  · rw [List.filter_append, hnone, List.append_nil]
    rfl
  · rfl

end Times

namespace Timed

variable {warmup : Nat} {answers : List (ReadResult W m Word)}
variable {readings : List (BitVec 64 × BitVec 64)}
variable {valueHist lappedHist : List (BitVec 64)}

theorem start (warmup : Nat) :
    Timed warmup ([] : List (ReadResult W m Word)) [] [] [] := by
  refine ⟨rfl, ?_, ?_⟩
  · simp [valueTimes, timesOf, recordedTimes]
  · simp [lapTimes, timesOf, recordedTimes]

theorem length_append (h : readings.length = answers.length)
    (a : ReadResult W m Word) (r : BitVec 64 × BitVec 64) :
    (readings ++ [r]).length = (answers ++ [a]).length := by
  rw [List.length_append, List.length_append, h]
  rfl

theorem empty (h : Timed warmup answers readings valueHist lappedHist)
    (r : BitVec 64 × BitVec 64) :
    Timed warmup (answers ++ [ReadResult.empty]) (readings ++ [r]) valueHist
      lappedHist where
  length := length_append h.length _ r
  values := h.values.trans (timesOf_empty h.length r).symm
  laps := h.laps.trans (timesOf_empty h.length r).symm

theorem value (h : Timed warmup answers readings valueHist lappedHist)
    (v : Payload m Word) (r : BitVec 64 × BitVec 64) :
    Timed warmup (answers ++ [ReadResult.value v]) (readings ++ [r])
      (if warmup ≤ (heard answers).length then valueHist ++ [elapsed r]
        else valueHist) lappedHist where
  length := length_append h.length _ r
  values := by
    rw [h.values]
    exact (timesOf_kind h.length r rfl rfl).symm
  laps := h.laps.trans
    (timesOf_other h.length r rfl Bool.false_ne_true).symm

theorem lap (h : Timed warmup answers readings valueHist lappedHist)
    (k : BitVec W) (r : BitVec 64 × BitVec 64) :
    Timed warmup (answers ++ [ReadResult.lapped k]) (readings ++ [r])
      valueHist (if warmup ≤ (heard answers).length
        then lappedHist ++ [elapsed r] else lappedHist) where
  length := length_append h.length _ r
  values := h.values.trans
    (timesOf_other h.length r rfl Bool.false_ne_true).symm
  laps := by
    rw [h.laps]
    exact (timesOf_kind h.length r rfl rfl).symm

end Timed

namespace MeasureLoop

/-- The answer that is not yet recorded. -/
def pending : MeasurePc W -> List (ReadResult W 1 (BitVec 64))
  | MeasurePc.measuring _ result => [result]
  | _ => []

structure Settled (warmup : Nat) (c : MeasureLoop W)
    (answers : List (ReadResult W 1 (BitVec 64))) : Prop where
  tally : c.tally.Counts warmup answers
  lapped : c.lappedHist.length = c.tally.lapped
  skipped : c.skippedHist = skips (recorded warmup answers)
  timed : Timed warmup answers c.readings c.tally.valueHist c.lappedHist

structure Follows (warmup : Nat) (c : MeasureLoop W)
    (answers : List (ReadResult W 1 (BitVec 64))) (told : Option Nat) :
    Prop where
  settled : exists settled, answers = settled ++ pending c.pc ∧
    Settled warmup c settled
  told : c.pc = MeasurePc.finished -> told.isSome = true

variable {warmup : Nat} {delay : BitVec 64} {c c' : MeasureLoop W}
variable {answers : List (ReadResult W 1 (BitVec 64))} {told : Option Nat}

theorem pending_next (delay : BitVec 64) :
    pending (next delay : MeasurePc W) = [] := by
  unfold next
  split <;> rfl

theorem next_ne_finished (delay : BitVec 64) :
    (next delay : MeasurePc W) ≠ MeasurePc.finished := by
  unfold next
  split
  · intro habsurd
    cases habsurd
  · intro habsurd
    cases habsurd

def measured (delay : BitVec 64) (warmup : Nat) (c : MeasureLoop W)
    (r : BitVec 64 × BitVec 64) (result : ReadResult W 1 (BitVec 64)) :
    MeasureLoop W :=
  record delay warmup { c with readings := c.readings ++ [r] } (elapsed r)
    result

theorem Settled.measured_value (hc : Settled warmup c answers)
    (delay : BitVec 64) (v : Payload 1 (BitVec 64))
    (r : BitVec 64 × BitVec 64) :
    Settled warmup (measured delay warmup c r (ReadResult.value v))
      (answers ++ [ReadResult.value v]) := by
  have hlapped : (c.tally.value warmup (elapsed r)).lapped =
      c.tally.lapped := by
    unfold Tally.value
    split <;> rfl
  have hhist : (c.tally.value warmup (elapsed r)).valueHist =
      if warmup ≤ (heard answers).length then
        c.tally.valueHist ++ [elapsed r]
      else c.tally.valueHist := by
    rw [← hc.tally.seen, Tally.value]
    split <;> rfl
  refine ⟨hc.tally.value v (elapsed r), hc.lapped.trans hlapped.symm, ?_, ?_⟩
  · show c.skippedHist = _
    rw [hc.skipped, recorded_heard (heard_value answers v)]
    split
    · rw [skips_append]
      exact (List.append_nil _).symm
    · rfl
  · show Timed warmup _ _ (c.tally.value warmup (elapsed r)).valueHist _
    rw [hhist]
    exact hc.timed.value v r

theorem Settled.measured_lapped (hc : Settled warmup c answers)
    (delay : BitVec 64) (k : BitVec W) (r : BitVec 64 × BitVec 64) :
    Settled warmup (measured delay warmup c r (ReadResult.lapped k))
      (answers ++ [ReadResult.lapped k]) := by
  have htally := hc.tally.lap k
  have htimed := hc.timed.lap k r
  have hrecorded : recorded warmup _ = _ :=
    recorded_heard (heard_lapped answers k)
  have hhist : (c.tally.lap warmup).valueHist = c.tally.valueHist := by
    unfold Tally.lap
    split <;> rfl
  rw [← hc.tally.seen] at hrecorded htimed
  rw [← hhist] at htimed
  unfold measured MeasureLoop.record
  simp only
  split
  · rename_i hwarm
    rw [if_pos hwarm] at hrecorded htimed
    refine ⟨htally, ?_, ?_, htimed⟩
    · show (c.lappedHist ++ [elapsed r]).length = (c.tally.lap warmup).lapped
      rw [List.length_append, hc.lapped, Tally.lap, if_pos hwarm]
      rfl
    · show c.skippedHist ++ [k.toNat] = _
      rw [hrecorded, skips_append, hc.skipped]
      rfl
  · rename_i hcold
    rw [if_neg hcold] at hrecorded htimed
    refine ⟨htally, ?_, ?_, htimed⟩
    · show c.lappedHist.length = (c.tally.lap warmup).lapped
      rw [hc.lapped, Tally.lap, if_neg hcold]
    · show c.skippedHist = _
      rw [hrecorded]
      exact hc.skipped

theorem Settled.measured (hc : Settled warmup c answers) (delay : BitVec 64)
    (result : ReadResult W 1 (BitVec 64)) (r : BitVec 64 × BitVec 64) :
    Settled warmup (measured delay warmup c r result)
      (answers ++ [result]) := by
  cases result with
  | value v => exact hc.measured_value delay v r
  | lapped k => exact hc.measured_lapped delay k r
  | empty =>
      refine ⟨hc.tally.empty, hc.lapped, ?_, hc.timed.empty r⟩
      show c.skippedHist = _
      rw [recorded_empty]
      exact hc.skipped

theorem pc_measured (delay : BitVec 64) (warmup : Nat) (c : MeasureLoop W)
    (r : BitVec 64 × BitVec 64) (result : ReadResult W 1 (BitVec 64)) :
    pending (measured delay warmup c r result).pc = [] ∧
      (measured delay warmup c r result).pc ≠ MeasurePc.finished := by
  unfold measured
  cases result with
  | value v => exact ⟨pending_next delay, next_ne_finished delay⟩
  | lapped k =>
      unfold MeasureLoop.record
      simp only
      split
      · exact ⟨pending_next delay, next_ne_finished delay⟩
      · exact ⟨pending_next delay, next_ne_finished delay⟩
  | empty => exact ⟨rfl, by intro habsurd; cases habsurd⟩

theorem Follows.of_pc (hc : Follows warmup c answers told) {pc : MeasurePc W}
    (hold : pending c.pc = []) (hpc : pending pc = [])
    (htold : pc = MeasurePc.finished -> told.isSome = true) :
    Follows warmup { c with pc := pc } answers told := by
  rcases hc.settled with ⟨settled, hanswers, hsettled⟩
  refine ⟨⟨settled, ?_, hsettled.tally, hsettled.lapped, hsettled.skipped,
    hsettled.timed⟩, htold⟩
  rw [hanswers, hold, hpc]

theorem Follows.clock (hc : Follows warmup c answers told) {tsc : BitVec 64}
    (h : c.clock delay warmup tsc = some c') :
    Follows warmup c' answers told := by
  unfold MeasureLoop.clock at h
  split at h
  · rename_i hpc
    rw [← Option.some.inj h]
    exact hc.of_pc (by rw [hpc]; rfl) rfl
      (by intro habsurd; cases habsurd)
  · rename_i stop hpc
    split at h
    · rw [← Option.some.inj h]
      exact hc
    · rw [← Option.some.inj h]
      exact hc.of_pc (by rw [hpc]; rfl) rfl
        (by intro habsurd; cases habsurd)
  · rename_i hpc
    rw [← Option.some.inj h]
    exact hc.of_pc (by rw [hpc]; rfl) rfl
      (by intro habsurd; cases habsurd)
  · rename_i t0 result hpc
    rcases hc.settled with ⟨settled, hanswers, hsettled⟩
    rcases pc_measured delay warmup c (t0, tsc) result with
      ⟨hpending, hrunning⟩
    have hmeasured := hsettled.measured delay result (t0, tsc)
    rw [hpc] at hanswers
    rw [← Option.some.inj h]
    refine ⟨⟨answers, ?_, ?_⟩, ?_⟩
    · exact (List.append_nil answers).symm.trans
        (congrArg (fun l => answers ++ l) hpending.symm)
    · rw [hanswers]
      exact hmeasured
    · intro habsurd
      exact absurd habsurd hrunning
  · cases h

theorem follows (W : Nat) (delay : BitVec 64) (warmup : Nat) :
    (measureLoop W delay warmup).Keeps (Follows warmup) where
  start := by
    refine ⟨⟨[], ?_, Tally.Counts.start W warmup, rfl, ?_,
      Timed.start warmup⟩, ?_⟩
    · exact (pending_next delay).symm
    · simp [recorded, heard, skips, measureLoop]
    · intro habsurd
      exact absurd habsurd (next_ne_finished delay)
  clock := fun _ _ _ _ _ hc h => Follows.clock hc h
  answered := by
    rintro ⟨tally, readings, lappedHist, skippedHist, pc⟩ answers told result hc
      hreads
    cases pc with
    | pausing | delaying | timing | measuring | loadDone | finished =>
        cases hreads
    | reading t0 =>
        rcases hc.settled with ⟨settled, hanswers, hsettled⟩
        refine ⟨⟨answers, rfl, ?_⟩, by intro habsurd; cases habsurd⟩
        rw [hanswers.trans (List.append_nil _)]
        exact ⟨hsettled.tally, hsettled.lapped, hsettled.skipped,
          hsettled.timed⟩
  missed := by
    rintro ⟨tally, readings, lappedHist, skippedHist, pc⟩ answers told hc hasks
    cases pc with
    | pausing | delaying | timing | reading | measuring | finished =>
        cases hasks
    | loadDone =>
        refine hc.of_pc rfl (pending_next delay) ?_
        intro habsurd
        exact absurd habsurd (next_ne_finished delay)
  found := by
    rintro ⟨tally, readings, lappedHist, skippedHist, pc⟩ answers told hc hasks
    cases pc with
    | pausing | delaying | timing | reading | measuring | finished =>
        cases hasks
    | loadDone =>
        rcases hc.settled with ⟨settled, hanswers, hsettled⟩
        exact ⟨⟨settled, hanswers, hsettled.tally, hsettled.lapped,
          hsettled.skipped, hsettled.timed⟩, fun _ => rfl⟩

end MeasureLoop

namespace SweepLoop

def Pending (answers settled : List (ReadResult W 1 (BitVec 64))) :
    SweepPc -> Prop
  | SweepPc.measuring _ =>
      exists v, answers = settled ++ [ReadResult.value v]
  | _ => answers = settled

structure Follows (warmup : Nat) (c : SweepLoop)
    (answers : List (ReadResult W 1 (BitVec 64))) (told : Option Nat) :
    Prop where
  settled : exists settled, Pending answers settled c.pc ∧
    c.tally.Counts warmup settled
  told : c.pc = SweepPc.finished -> told.isSome = true

theorem follows (W warmup : Nat) :
    (sweepLoop W warmup).Keeps (Follows warmup) where
  start := ⟨⟨[], rfl, Tally.Counts.start W warmup⟩, by
    intro habsurd
    cases habsurd⟩
  clock := by
    rintro ⟨tally, pc⟩ answers told tsc c' hc h
    change SweepLoop.clock warmup ⟨tally, pc⟩ tsc = some c' at h
    rcases hc.settled with ⟨settled, hpending, hcounts⟩
    unfold SweepLoop.clock at h
    cases pc with
    | reading | loadDone | finished => cases h
    | timing =>
        rw [← Option.some.inj h]
        exact ⟨⟨settled, hpending, hcounts⟩, by
          intro habsurd
          cases habsurd⟩
    | measuring t0 =>
        rcases hpending with ⟨v, hanswers⟩
        rw [← Option.some.inj h]
        refine ⟨⟨answers, rfl, ?_⟩, by intro habsurd; cases habsurd⟩
        rw [hanswers]
        exact hcounts.value v (tsc - t0)
  answered := by
    rintro ⟨tally, pc⟩ answers told result hc hreads
    rcases hc.settled with ⟨settled, hpending, hcounts⟩
    cases pc with
    | timing | measuring | loadDone | finished => cases hreads
    | reading t0 =>
        have hall : answers = settled := hpending
        rw [← hall] at hcounts
        cases result with
        | value v =>
            exact ⟨⟨answers, ⟨v, rfl⟩, hcounts⟩, by
              intro habsurd
              cases habsurd⟩
        | lapped k =>
            exact ⟨⟨answers ++ [ReadResult.lapped k], rfl, hcounts.lap k⟩, by
              intro habsurd
              cases habsurd⟩
        | empty =>
            exact ⟨⟨answers ++ [ReadResult.empty], rfl, hcounts.empty⟩, by
              intro habsurd
              cases habsurd⟩
  missed := by
    rintro ⟨tally, pc⟩ answers told hc hasks
    have hpc : pc = SweepPc.loadDone := beq_iff_eq.mp hasks
    rcases hc.settled with ⟨settled, hpending, hcounts⟩
    rw [hpc] at hpending
    exact ⟨⟨settled, hpending, hcounts⟩, by
      intro habsurd
      cases habsurd⟩
  found := by
    rintro ⟨tally, pc⟩ answers told hc hasks
    have hpc : pc = SweepPc.loadDone := beq_iff_eq.mp hasks
    rcases hc.settled with ⟨settled, hpending, hcounts⟩
    rw [hpc] at hpending
    exact ⟨⟨settled, hpending, hcounts⟩, fun _ => rfl⟩

end SweepLoop

/-!
## What is reported is at most what was published
-/

theorem length_values (log : List (ReadRecord W m Word)) :
    (values (log.map ReadRecord.result)).length = valueCount log := by
  rw [values, List.filterMap_map, List.length_filterMap_eq_countP]
  rfl

theorem sum_skips (log : List (ReadRecord W m Word)) :
    (skips (log.map ReadRecord.result)).sum = skippedSum log := by
  induction log with
  | nil => rfl
  | cons e rest ih =>
      have hsum : skippedSum (e :: rest) = e.skipped + skippedSum rest := by
        rw [skippedSum, List.map_cons, List.sum_cons]
        rfl
      rw [hsum, ← ih, List.map_cons, skips, List.filterMap_cons]
      cases hresult : e.result with
      | value v =>
          rw [ReadRecord.skipped, hresult]
          exact (Nat.zero_add _).symm
      | empty =>
          rw [ReadRecord.skipped, hresult]
          exact (Nat.zero_add _).symm
      | lapped k =>
          rw [ReadRecord.skipped, hresult]
          exact List.sum_cons

theorem recorded_sublist (warmup : Nat)
    (answers : List (ReadResult W m Word)) :
    (recorded warmup answers).Sublist answers :=
  (List.drop_sublist warmup _).trans List.filter_sublist

theorem covered_le (warmup : Nat) (log : List (ReadRecord W m Word)) :
    (values (recorded warmup (log.map ReadRecord.result))).length +
      (skips (recorded warmup (log.map ReadRecord.result))).sum ≤
        valueCount log + skippedSum log := by
  have hsub := recorded_sublist warmup (log.map ReadRecord.result)
  rw [← length_values, ← sum_skips]
  exact Nat.add_le_add (hsub.filterMap _).length_le
    ((hsub.filterMap _).sum_le_sum (fun _ _ => Nat.zero_le _))

namespace SpmcThreads

variable {cap : Capacity W} {runTicks : BitVec 64} {retries : Bool}
variable {R : ReadLoop W 1 (BitVec 64)} {warmup : Nat}

/-- The counts of a timed bench, whose item at position `k` is the word of `k`. -/
structure Reported (warmup : Nat)
    (s : SpmcThreads cap (windowLoop runTicks retries) R) (t : Tally) :
    Prop where
  counts : t.Counts warmup s.answers
  covered : t.values + (skips (recorded warmup s.answers)).sum ≤
    s.queue.published.length
  items : forall e v, e ∈ readLog s.queue -> e.result = ReadResult.value v ->
    v = word64 (BitVec.ofNat 64 e.position)
  published : s.producer.i = BitVec.ofNat 64 s.queue.published.length

theorem reported {s : SpmcThreads cap (windowLoop runTicks retries) R}
    (hs : (spmcThreads cap (windowLoop runTicks retries) R).Reachable s)
    {Q : R.State -> List (ReadResult W 1 (BitVec 64)) -> Option Nat -> Prop}
    (hstream : Stream WindowLoop.Counted Q s) (hlag : s.LagBelowHalf)
    {t : Tally} (hcounts : t.Counts warmup s.answers)
    (hstored : s.stored = true) : Reported warmup s t := by
  rcases hstream.chained hs hlag with ⟨position, hchained, hle⟩
  have htotal := hchained.total
  have hcovered := covered_le warmup (readLog s.queue)
  have hcounted : WindowLoop.Counted s.producer s.queue.published := by
    cases hstream.producer with
    | between _ hp => exact hp
    | during _ _ _ _ hoffer =>
        exact absurd hstored (hstream.not_stored_of_offer hoffer)
  refine ⟨hcounts, ?_, ?_, hcounted.next⟩
  · rw [hcounts.valued]
    show (values (recorded warmup ((readLog s.queue).map _))).length +
      (skips (recorded warmup ((readLog s.queue).map _))).sum ≤ _
    lia
  · intro e v he hvalue
    exact hcounted.items e.position v
      ((recordOk hs he).value v hvalue (hlag e he))

/--
The report of `measure` in the lapped bench: `values` and `lapped` count the
answers after the warmup, `value_hist` and `lapped_hist` hold the time that each of
them took, `skipped_hist` holds the skipped counts of the same laps, and together
they are at most what was published.
-/
theorem measure_report {delay : BitVec 64}
    {s : SpmcThreads cap (windowLoop runTicks false)
      (measureLoop W delay warmup)}
    (hs : (measure cap delay runTicks warmup).Reachable s)
    (hpc : s.consumer.pc = MeasurePc.finished) (hlag : s.LagBelowHalf) :
    Reported warmup s s.consumer.tally ∧
      s.consumer.lappedHist.length = s.consumer.tally.lapped ∧
      s.consumer.skippedHist = skips (recorded warmup s.answers) ∧
      Timed warmup s.answers s.consumer.readings s.consumer.tally.valueHist
        s.consumer.lappedHist ∧
      s.consumer.tally.values + s.consumer.skippedHist.sum ≤
        s.queue.published.length := by
  have hstream := Stream.reachable (WindowLoop.publishes runTicks false)
    (MeasureLoop.follows W delay warmup) hs
  rcases hstream.reader with ⟨r, hr, hreading⟩
  have hfollows : MeasureLoop.Follows warmup s.consumer s.answers s.told := by
    rw [answers, readLog_eq hr]
    exact hreading.consumer
  rcases hfollows.settled with ⟨settled, hanswers, hsettled⟩
  rw [hpc] at hanswers
  rw [← hanswers.trans (List.append_nil _)] at hsettled
  rcases Option.isSome_iff_exists.mp (hfollows.told hpc) with ⟨k, hk⟩
  have hreport := reported hs hstream hlag hsettled.tally
    (hreading.told k hk).left
  refine ⟨hreport, hsettled.lapped, hsettled.skipped, hsettled.timed, ?_⟩
  rw [hsettled.skipped]
  exact hreport.covered

/-- A lap over the first item, and the second one read, each after a delay. -/
theorem measure_report_lapped :
    exists s, (measure (⟨1#3, 0, rfl⟩ : Capacity 3) 3 10 0).run
        ([SpmcThreadAction.producerClock 100,
            SpmcThreadAction.producerClock 101, SpmcThreadAction.publish 0] ++
          publishSteps ++
          [SpmcThreadAction.consumerClock 102,
            SpmcThreadAction.consumerClock 106,
            SpmcThreadAction.consumerClock 107, SpmcThreadAction.read,
            SpmcThreadAction.readStep (RelaxedReadAction.loadWriteCursor 1),
            SpmcThreadAction.producerClock 105, SpmcThreadAction.publish 1] ++
          publishSteps ++
          ([RelaxedReadAction.loadSeq 4,
            RelaxedReadAction.loadWriteCursor 2].map
              SpmcThreadAction.readStep) ++
          [SpmcThreadAction.consumerClock 117,
            SpmcThreadAction.producerClock 110, SpmcThreadAction.storeDone,
            SpmcThreadAction.consumerClock 118,
            SpmcThreadAction.consumerClock 121,
            SpmcThreadAction.consumerClock 122, SpmcThreadAction.read] ++
          ([RelaxedReadAction.loadSeq 4, RelaxedReadAction.loadWord 0 2,
            RelaxedReadAction.loadSeq 4].map SpmcThreadAction.readStep) ++
          [SpmcThreadAction.consumerClock 130,
            SpmcThreadAction.consumerClock 131,
            SpmcThreadAction.consumerClock 134,
            SpmcThreadAction.consumerClock 135, SpmcThreadAction.read,
            SpmcThreadAction.readStep (RelaxedReadAction.loadWriteCursor 2),
            SpmcThreadAction.consumerClock 136,
            SpmcThreadAction.loadDone true]) = some s ∧
      s.consumer.tally.values = 1 ∧ s.consumer.tally.lapped = 1 ∧
      s.consumer.skippedHist = [1] ∧
      s.consumer.readings = [(107, 117), (122, 130), (135, 136)] ∧
      valueTimes 0 s.answers s.consumer.readings = [8] ∧
      lapTimes 0 s.answers s.consumer.readings = [10] ∧
      s.consumer.tally.values + s.consumer.skippedHist.sum ≤
        s.queue.published.length := by
  apply Machine.exists_run_of_map
    (fun s => (s.consumer.finished, s.consumer.tally.values,
      s.consumer.tally.lapped, s.consumer.skippedHist,
      decide (s.consumer.readings = [(107, 117), (122, 130), (135, 136)] ∧
        s.consumer.tally.valueHist = [8] ∧ s.consumer.lappedHist = [10]),
      (readLog s.queue).all (fun e =>
        decide (e.progress.begun ≤ e.position + 2 ^ (3 - 1)))))
    (true, 1, 1, [1], true, true) (by decide +kernel)
  intro s hrun hshown
  simp only [Prod.mk.injEq] at hshown
  rcases hshown with
    ⟨hfinished, hvalues, hlapped, hskipped, htimes, hall⟩
  rcases of_decide_eq_true htimes with ⟨hreadings, hvalue, hlap⟩
  have hpc : s.consumer.pc = MeasurePc.finished := by
    unfold MeasureLoop.finished at hfinished
    split at hfinished
    · assumption
    · cases hfinished
  have hlag : s.LagBelowHalf := by
    intro e he
    exact of_decide_eq_true (List.all_eq_true.mp hall e he)
  rcases measure_report ⟨_, hrun⟩ hpc hlag with ⟨_, _, _, htimed, hcovered⟩
  exact ⟨hvalues, hlapped, hskipped, hreadings, htimed.values.symm.trans hvalue,
    htimed.laps.symm.trans hlap, hcovered⟩

/-- The report of `run_spmc_capacity_sweep_one`. -/
theorem sweep_report
    {s : SpmcThreads cap (windowLoop runTicks true) (sweepLoop W warmup)}
    (hs : (runSpmcCapacitySweepOne cap runTicks warmup).Reachable s)
    (hpc : s.consumer.pc = SweepPc.finished) (hlag : s.LagBelowHalf) :
    Reported warmup s s.consumer.tally := by
  have hstream := Stream.reachable (WindowLoop.publishes runTicks true)
    (SweepLoop.follows W warmup) hs
  rcases hstream.reader with ⟨r, hr, hreading⟩
  have hfollows : SweepLoop.Follows warmup s.consumer s.answers s.told := by
    rw [answers, readLog_eq hr]
    exact hreading.consumer
  rcases hfollows.settled with ⟨settled, hpending, hcounts⟩
  rw [hpc] at hpending
  rw [← show s.answers = settled from hpending] at hcounts
  rcases Option.isSome_iff_exists.mp (hfollows.told hpc) with ⟨k, hk⟩
  exact reported hs hstream hlag hcounts (hreading.told k hk).left

end SpmcThreads

end Bench
end LowLatency
