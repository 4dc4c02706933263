import LowLatency.Foundation.Words

/-!
# Slot capacities

Both queues take their number of slots as a constant `CAPACITY` of type `usize`
and refuse to compile unless it is a power of two.  Positions are counters in
machine words, and the slot of a position is its word masked with
`CAPACITY - 1`.
-/

namespace LowLatency

open Foundation

/-- A value of `CAPACITY` that passes the `is_power_of_two` assertion. -/
structure Capacity (W : Nat) where
  value : BitVec W
  log : Nat
  isPowerOfTwo : value.toNat = 2 ^ log

namespace Capacity

variable {W : Nat}

def size (cap : Capacity W) : Nat :=
  cap.value.toNat

theorem size_pos (cap : Capacity W) : 0 < cap.size := by
  rw [size, cap.isPowerOfTwo]
  exact Nat.two_pow_pos cap.log

theorem size_lt (cap : Capacity W) : cap.size < 2 ^ W :=
  cap.value.isLt

theorem log_lt (cap : Capacity W) : cap.log < W := by
  have hlt := cap.size_lt
  rw [size, cap.isPowerOfTwo] at hlt
  exact (Nat.pow_lt_pow_iff_right Nat.one_lt_two).mp hlt

theorem width_pos (cap : Capacity W) : 0 < W :=
  Nat.lt_of_le_of_lt (Nat.zero_le _) cap.log_lt

theorem size_le_half (cap : Capacity W) : cap.size ≤ 2 ^ (W - 1) := by
  have hlt := cap.log_lt
  rw [size, cap.isPowerOfTwo]
  exact Nat.pow_le_pow_right Nat.two_pos (by lia)

theorem value_eq_ofNat (cap : Capacity W) :
    cap.value = BitVec.ofNat W cap.size := by
  apply BitVec.eq_of_toNat_eq
  rw [BitVec.toNat_ofNat, Nat.mod_eq_of_lt cap.size_lt]
  rfl

/-- The index `i & (CAPACITY - 1)`, inside the slot buffer. -/
def slotIndex (cap : Capacity W) (i : BitVec W) : Fin cap.size :=
  ⟨(i &&& (cap.value - 1#W)).toNat, by
    rw [Words.toNat_and_mask cap.isPowerOfTwo]
    exact Nat.mod_lt _ cap.size_pos⟩

theorem slotIndex_ofNat_val (cap : Capacity W) (n : Nat) :
    (cap.slotIndex (BitVec.ofNat W n)).val = n % cap.size :=
  Words.toNat_ofNat_and_mask cap.isPowerOfTwo n

def slotOf (cap : Capacity W) (n : Nat) : Fin cap.size :=
  cap.slotIndex (BitVec.ofNat W n)

theorem slotOf_val (cap : Capacity W) (j : Fin cap.size) :
    cap.slotOf j = j := by
  apply Fin.ext
  rw [slotOf, slotIndex_ofNat_val, Nat.mod_eq_of_lt j.isLt]

theorem slotOf_eq_iff (cap : Capacity W) {a b : Nat} :
    cap.slotOf a = cap.slotOf b <-> Nat.ModEq cap.size a b := by
  rw [Fin.ext_iff, slotOf, slotOf, slotIndex_ofNat_val, slotIndex_ofNat_val]
  rfl

theorem slotOf_ne_of_lt (cap : Capacity W) {a b : Nat}
    (hab : a < b) (hlt : b < a + cap.size) : cap.slotOf a ≠ cap.slotOf b := by
  intro h
  have heq := Words.eq_of_modEq_of_lt_add (Nat.le_of_lt hab) hlt
    ((slotOf_eq_iff cap).mp h)
  lia

/-!
## Visits

The positions of a slot are visited one lap after the other.
-/

def positionAt (cap : Capacity W) (j : Fin cap.size) (u : Nat) : Nat :=
  j.val + cap.size * u

def visits (cap : Capacity W) (j : Fin cap.size) (n : Nat) : Nat :=
  (n + (cap.size - 1 - j.val)) / cap.size

variable (cap : Capacity W) {j : Fin cap.size} {n u : Nat}

theorem lt_visits_iff : u < cap.visits j n <-> cap.positionAt j u < n := by
  have hj := j.isLt
  rw [visits, ← Nat.succ_le_iff, Nat.le_div_iff_mul_le cap.size_pos,
    Nat.succ_mul, Nat.mul_comm, positionAt]
  lia

theorem slotOf_positionAt (j : Fin cap.size) (u : Nat) :
    cap.slotOf (cap.positionAt j u) = j := by
  apply Fin.ext
  rw [slotOf, slotIndex_ofNat_val, positionAt, Nat.add_mul_mod_self_left]
  exact Nat.mod_eq_of_lt j.isLt

theorem positionAt_slotOf (n : Nat) :
    cap.positionAt (cap.slotOf n) (n / cap.size) = n := by
  rw [positionAt, slotOf, slotIndex_ofNat_val]
  exact Nat.mod_add_div n cap.size

theorem positionAt_inj {v : Nat}
    (h : cap.positionAt j u = cap.positionAt j v) : u = v := by
  rw [positionAt, positionAt] at h
  exact Nat.eq_of_mul_eq_mul_left cap.size_pos (Nat.add_left_cancel h)

theorem positionAt_lt_iff {v : Nat} :
    cap.positionAt j u < cap.positionAt j v <-> u < v := by
  rw [positionAt, positionAt, Nat.add_lt_add_iff_left]
  exact Nat.mul_lt_mul_left cap.size_pos

theorem positionAt_succ (j : Fin cap.size) (u : Nat) :
    cap.positionAt j (u + 1) = cap.positionAt j u + cap.size := by
  rw [positionAt, positionAt, Nat.mul_succ, Nat.add_assoc]

theorem positionAt_div (j : Fin cap.size) (u : Nat) :
    cap.positionAt j u / cap.size = u := by
  rw [positionAt, Nat.add_mul_div_left _ _ cap.size_pos,
    Nat.div_eq_of_lt j.isLt, Nat.zero_add]

theorem visits_le {v : Nat} (h : n ≤ cap.positionAt j v) :
    cap.visits j n ≤ v := by
  rw [← Nat.not_lt, cap.lt_visits_iff]
  exact Nat.not_lt.mpr h

theorem visits_zero (j : Fin cap.size) :
    cap.visits j 0 = 0 := by
  apply eq_of_forall_lt_iff
  intro u
  rw [lt_visits_iff]
  lia

theorem visits_slotOf (n : Nat) :
    cap.visits (cap.slotOf n) n = n / cap.size := by
  apply eq_of_forall_lt_iff
  intro u
  rw [lt_visits_iff]
  nth_rewrite 2 [← cap.positionAt_slotOf n]
  exact cap.positionAt_lt_iff

theorem visits_slotOf_succ (n : Nat) :
    cap.visits (cap.slotOf n) (n + 1) = n / cap.size + 1 := by
  apply eq_of_forall_lt_iff
  intro u
  rw [lt_visits_iff, Nat.lt_succ_iff, Nat.lt_succ_iff, ← Nat.not_lt, ← Nat.not_lt]
  nth_rewrite 1 [← cap.positionAt_slotOf n]
  rw [positionAt_lt_iff]

theorem visits_succ_of_ne (h : j ≠ cap.slotOf n) :
    cap.visits j (n + 1) = cap.visits j n := by
  apply eq_of_forall_lt_iff
  intro u
  have hne : cap.positionAt j u ≠ n := by
    intro heq
    apply h
    rw [← heq, slotOf_positionAt]
  rw [lt_visits_iff, lt_visits_iff]
  lia

/-- A position belongs to the laps of its slot. -/
theorem lap_lt_visits_iff {p : Nat} :
    p / cap.size < cap.visits (cap.slotOf p) n <-> p < n := by
  rw [cap.lt_visits_iff, cap.positionAt_slotOf]

theorem lap_le_visits {p : Nat} (h : p < n + cap.size) :
    p / cap.size ≤ cap.visits (cap.slotOf p) n := by
  rcases Nat.eq_zero_or_pos (p / cap.size) with hzero | hpos
  · lia
  · have hlap := cap.positionAt_succ (cap.slotOf p) (p / cap.size - 1)
    rw [Nat.sub_add_cancel hpos, cap.positionAt_slotOf] at hlap
    have hlt : p / cap.size - 1 < cap.visits (cap.slotOf p) n :=
      cap.lt_visits_iff.mpr (by lia)
    lia

end Capacity
end LowLatency
