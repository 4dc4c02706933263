import Mathlib.Algebra.Order.Floor.Semifield
import Mathlib.Data.Rat.Floor
import LowLatency.Foundation.FixedPoint
import LowLatency.Foundation.Words

/-!
# The schedule of the throttled bench

The producer keeps the time of the next item in units of `2 ^ -32` ticks and
advances it by a rounded step for every item.  The time that it waits for is
cut to whole ticks.
-/

namespace LowLatency
namespace Bench

open Foundation

/-- `dt_q32`, the ticks per item in Q32. -/
def dtQ32 (tscHz rateHz : BitVec 64) : BitVec 128 :=
  (tscHz.setWidth 128 <<< 32) / rateHz.setWidth 128

/-- `(schedule_q32 >> 32) as u64`. -/
def scheduleTsc (scheduleQ32 : BitVec 128) : BitVec 64 :=
  (scheduleQ32 >>> 32).setWidth 64

/-- The producer loop of `measure_at_rate`, as far as the schedule goes. -/
structure Pacer where
  scheduleQ32 : BitVec 128
  /-- `schedule_tsc` of the items so far. -/
  scheduled : List (BitVec 64)
deriving DecidableEq, Repr

namespace Pacer

def start (tStart : BitVec 64) : Pacer where
  scheduleQ32 := tStart.setWidth 128 <<< 32
  scheduled := []

/-- One item; `none` is an overflow of the accumulation. -/
def next (dt : BitVec 128) (p : Pacer) : Option Pacer :=
  match Words.checkedAdd p.scheduleQ32 dt with
  | none => none
  | some q =>
      some { scheduleQ32 := q, scheduled := p.scheduled ++ [scheduleTsc q] }

def afterItems (tscHz rateHz tStart : BitVec 64) : Nat -> Option Pacer
  | 0 => some (start tStart)
  | i + 1 =>
      match afterItems tscHz rateHz tStart i with
      | none => none
      | some p => p.next (dtQ32 tscHz rateHz)

end Pacer

/-!
## Words and numbers
-/

section Words

variable {tscHz rateHz tStart : BitVec 64}

theorem toNat_shifted (x : BitVec 64) :
    (x.setWidth 128 <<< 32).toNat = x.toNat * 2 ^ 32 := by
  have hlt := x.isLt
  rw [BitVec.toNat_shiftLeft, BitVec.toNat_setWidth, Nat.shiftLeft_eq,
    Nat.mod_eq_of_lt (show x.toNat < 2 ^ 128 by lia),
    Nat.mod_eq_of_lt (by lia)]

theorem toNat_dtQ32 (tscHz rateHz : BitVec 64) :
    (dtQ32 tscHz rateHz).toNat =
      FixedPoint.step tscHz.toNat rateHz.toNat (2 ^ 32) := by
  have hlt := rateHz.isLt
  rw [dtQ32, BitVec.toNat_udiv, toNat_shifted, BitVec.toNat_setWidth,
    Nat.mod_eq_of_lt (show rateHz.toNat < 2 ^ 128 by lia)]
  rfl

/-- The cast loses nothing of a time below `2 ^ 64` ticks. -/
theorem toNat_scheduleTsc {q : BitVec 128} (h : q.toNat / 2 ^ 32 < 2 ^ 64) :
    (scheduleTsc q).toNat = q.toNat / 2 ^ 32 := by
  rw [scheduleTsc, BitVec.toNat_setWidth, BitVec.toNat_ushiftRight,
    Nat.shiftRight_eq_div_pow, Nat.mod_eq_of_lt h]

end Words

/-!
## The schedule as numbers
-/

/-- The time of item `i` in units of `2 ^ -32` ticks. -/
def timeQ32 (tscHz rateHz tStart : BitVec 64) (i : Nat) : Nat :=
  tStart.toNat * 2 ^ 32 + i * (dtQ32 tscHz rateHz).toNat

def ticks (tscHz rateHz tStart : BitVec 64) (i : Nat) : Nat :=
  timeQ32 tscHz rateHz tStart i / 2 ^ 32

def ideal (tscHz rateHz tStart : BitVec 64) (i : Nat) : ℚ :=
  tStart.toNat + (i * tscHz.toNat : Nat) / rateHz.toNat

section Ticks

variable {tscHz rateHz tStart : BitVec 64} {i j : Nat}

theorem ticks_eq (i : Nat) :
    ticks tscHz rateHz tStart i = tStart.toNat +
      i * FixedPoint.step tscHz.toNat rateHz.toNat (2 ^ 32) / 2 ^ 32 := by
  rw [ticks, timeQ32, toNat_dtQ32, Nat.add_comm,
    Nat.add_mul_div_right _ _ (Nat.two_pow_pos 32), Nat.add_comm]

theorem floor_ideal (i : Nat) :
    ⌊ideal tscHz rateHz tStart i⌋₊ =
      tStart.toNat + i * tscHz.toNat / rateHz.toNat := by
  have hpos : (0 : ℚ) ≤ ((i * tscHz.toNat : Nat) : ℚ) / rateHz.toNat := by
    positivity
  rw [ideal, add_comm, Nat.floor_add_natCast hpos, Nat.floor_div_natCast,
    Nat.floor_natCast, add_comm]

theorem ticks_le_floor (tscHz tStart : BitVec 64) (hrate : 1 ≤ rateHz.toNat) (i : Nat) :
    ticks tscHz rateHz tStart i ≤ ⌊ideal tscHz rateHz tStart i⌋₊ := by
  rw [ticks_eq, floor_ideal]
  exact Nat.add_le_add_left
    (FixedPoint.accumulated_le hrate (Nat.two_pow_pos 32) i) _

theorem floor_le_ticks (tscHz tStart : BitVec 64) (hrate : 1 ≤ rateHz.toNat) (hi : i ≤ 2 ^ 32) :
    ⌊ideal tscHz rateHz tStart i⌋₊ ≤ ticks tscHz rateHz tStart i + 1 := by
  have hstep := FixedPoint.le_accumulated (h := tscHz.toNat) hrate
    (Nat.two_pow_pos 32) hi
  rw [ticks_eq, floor_ideal]
  lia

theorem ticks_mono (h : i ≤ j) :
    ticks tscHz rateHz tStart i ≤ ticks tscHz rateHz tStart j := by
  apply Nat.div_le_div_right
  exact Nat.add_le_add_left (Nat.mul_le_mul_right _ h) _

theorem ideal_mono (h : i ≤ j) :
    ideal tscHz rateHz tStart i ≤ ideal tscHz rateHz tStart j := by
  unfold ideal
  gcongr

end Ticks

/-!
## The loop
-/

namespace Pacer

variable {tscHz rateHz tStart : BitVec 64} {p : Pacer} {i : Nat}

structure Scheduled (tscHz rateHz tStart : BitVec 64) (i : Nat) (p : Pacer) :
    Prop where
  time : p.scheduleQ32.toNat = timeQ32 tscHz rateHz tStart i
  items : p.scheduled.map BitVec.toNat =
    (List.range i).map (fun k => ticks tscHz rateHz tStart (k + 1))

theorem Scheduled.start : Scheduled tscHz rateHz tStart 0 (start tStart) where
  time := by
    rw [timeQ32, Nat.zero_mul, Nat.add_zero]
    exact toNat_shifted tStart
  items := rfl

theorem Scheduled.next (hs : Scheduled tscHz rateHz tStart i p)
    (hfit : ticks tscHz rateHz tStart (i + 1) < 2 ^ 64) :
    exists p', p.next (dtQ32 tscHz rateHz) = some p' ∧
      Scheduled tscHz rateHz tStart (i + 1) p' := by
  have hsum : p.scheduleQ32.toNat + (dtQ32 tscHz rateHz).toNat =
      timeQ32 tscHz rateHz tStart (i + 1) := by
    rw [hs.time, timeQ32, timeQ32, Nat.succ_mul, Nat.add_assoc]
  have hlt : timeQ32 tscHz rateHz tStart (i + 1) < 2 ^ 128 := by
    unfold ticks at hfit
    lia
  have hadd := Words.checkedAdd_eq_some (show p.scheduleQ32.toNat +
    (dtQ32 tscHz rateHz).toNat < 2 ^ 128 by rw [hsum]; exact hlt)
  have htime : (p.scheduleQ32 + dtQ32 tscHz rateHz).toNat =
      timeQ32 tscHz rateHz tStart (i + 1) := by
    rw [BitVec.toNat_add_of_lt (by rw [hsum]; exact hlt), hsum]
  refine ⟨_, by rw [Pacer.next, hadd], ?_⟩
  constructor
  · exact htime
  · have htsc := toNat_scheduleTsc (q := p.scheduleQ32 + dtQ32 tscHz rateHz)
      (by rw [htime]; exact hfit)
    rw [List.map_append, hs.items, List.range_succ, List.map_append,
      List.map_singleton, List.map_singleton, htsc, htime]
    rfl

theorem afterItems_scheduled (hrate : 1 ≤ rateHz.toNat) (i : Nat)
    (hfit : ideal tscHz rateHz tStart i < 2 ^ 64) :
    exists p, afterItems tscHz rateHz tStart i = some p ∧
      Scheduled tscHz rateHz tStart i p := by
  induction i with
  | zero => exact ⟨_, rfl, Scheduled.start⟩
  | succ i ih =>
      have hbefore := lt_of_le_of_lt (ideal_mono (Nat.le_succ i)) hfit
      rcases ih hbefore with ⟨p, hp, hs⟩
      have hfloor : ⌊ideal tscHz rateHz tStart (i + 1)⌋₊ < 2 ^ 64 := by
        rw [Nat.floor_lt' (by lia)]
        exact_mod_cast hfit
      have hticks := Nat.lt_of_le_of_lt
        (ticks_le_floor tscHz tStart hrate (i + 1))
        hfloor
      rcases hs.next hticks with ⟨p', hnext, hs'⟩
      refine ⟨p', ?_, hs'⟩
      rw [afterItems, hp]
      exact hnext

/--
Up to item `2 ^ 32` the schedule is the ideal one rounded down, or one tick
less.  It is never ahead, never goes back, and neither the accumulation nor
the cast loses anything.
-/
theorem schedule_follows_ideal (tscHz rateHz tStart : BitVec 64)
    (hrate : 1 ≤ rateHz.toNat) (i : Nat) (hfirst : 1 ≤ i)
    (hlast : i ≤ 2 ^ 32) (hfit : ideal tscHz rateHz tStart i < 2 ^ 64) :
    exists p, afterItems tscHz rateHz tStart i = some p ∧
      p.scheduleQ32.toNat = tStart.toNat * 2 ^ 32 +
        i * (tscHz.toNat * 2 ^ 32 / rateHz.toNat) ∧
      p.scheduled.length = i ∧
      (p.scheduled.map BitVec.toNat).Pairwise (fun x y => x ≤ y) ∧
      exists s, p.scheduled.getLast? = some s ∧
        s.toNat = p.scheduleQ32.toNat / 2 ^ 32 ∧
        (s.toNat = ⌊ideal tscHz rateHz tStart i⌋₊ ∨
          s.toNat + 1 = ⌊ideal tscHz rateHz tStart i⌋₊) ∧
        (s.toNat : ℚ) ≤ ideal tscHz rateHz tStart i := by
  rcases afterItems_scheduled hrate i hfit with ⟨p, hp, hs⟩
  have hle := ticks_le_floor tscHz tStart hrate i
  have hge := floor_le_ticks tscHz tStart hrate hlast
  have hnonneg : 0 ≤ ideal tscHz rateHz tStart i := by
    unfold ideal
    positivity
  have hitems : (p.scheduled.map BitVec.toNat).getLast? =
      some (ticks tscHz rateHz tStart i) := by
    rw [hs.items, show i = i - 1 + 1 by lia, List.range_succ]
    simp
  rw [List.getLast?_map] at hitems
  rcases Option.map_eq_some_iff.mp hitems with ⟨s, hs', hticks⟩
  refine ⟨p, hp, ?_, ?_, ?_, s, hs', ?_, ?_, ?_⟩
  · rw [hs.time, timeQ32, toNat_dtQ32]
    rfl
  · have hlength := congrArg List.length hs.items
    simpa using hlength
  · rw [hs.items, List.pairwise_map]
    apply List.pairwise_lt_range.imp
    intro j k hjk
    exact ticks_mono (Nat.succ_le_succ (Nat.le_of_lt hjk))
  · rw [hticks, hs.time]
    rfl
  · rw [hticks]
    lia
  · rw [hticks]
    exact le_trans (by exact_mod_cast hle) (Nat.floor_le hnonneg)

/-- A rate that does not divide the frequency: item 3 is one tick behind. -/
theorem schedule_follows_ideal_thirds :
    exists p, afterItems 10#64 3#64 100#64 3 = some p ∧
      exists s, p.scheduled.getLast? = some s ∧ s.toNat = 109 ∧
        (s.toNat : ℚ) ≤ 110 := by
  have hideal : ideal 10#64 3#64 100#64 3 = 110 := by
    norm_num [ideal]
  rcases schedule_follows_ideal 10#64 3#64 100#64 (by decide) 3 (by decide)
    (by decide) (by rw [hideal]; norm_num) with
    ⟨p, hp, htime, _, _, s, hlast, hcut, _, hle⟩
  refine ⟨p, hp, s, hlast, ?_, ?_⟩
  · rw [hcut, htime]
    decide
  · rw [← hideal]
    exact hle

end Pacer
end Bench
end LowLatency
