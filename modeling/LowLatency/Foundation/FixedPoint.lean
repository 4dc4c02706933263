import Mathlib.Tactic.Ring

/-!
# Accumulated fixed-point steps

A step of `h / r` units is kept as a whole number of `1 / S`-th units, rounded
down, and added up `i` times.  The rounding of the step is multiplied by `i`,
so for `i` up to `S` the sum is behind by less than one unit.
-/

namespace LowLatency
namespace Foundation
namespace FixedPoint

variable {h r S i : Nat}

/-- `h / r` in units of `1 / S`, rounded down. -/
def step (h r S : Nat) : Nat :=
  h * S / r

theorem step_mul_le (h r S : Nat) : step h r S * r ≤ h * S :=
  Nat.div_mul_le_self _ _

theorem lt_step_succ_mul (h S : Nat) (hr : 0 < r) :
    h * S < (step h r S + 1) * r :=
  (Nat.div_lt_iff_lt_mul hr).mp (Nat.lt_succ_self _)

theorem accumulated_le (hr : 0 < r) (hS : 0 < S) (i : Nat) :
    i * step h r S / S ≤ i * h / r := by
  have hstep := step_mul_le h r S
  rw [Nat.le_div_iff_mul_le hr]
  apply Nat.le_of_mul_le_mul_right _ hS
  calc i * step h r S / S * r * S
      = i * step h r S / S * S * r := by ring
    _ ≤ i * step h r S * r :=
        Nat.mul_le_mul_right r (Nat.div_mul_le_self _ _)
    _ = i * (step h r S * r) := by ring
    _ ≤ i * (h * S) := Nat.mul_le_mul_left i hstep
    _ = i * h * S := by ring

theorem le_accumulated (hr : 0 < r) (hS : 0 < S) (hi : i ≤ S) :
    i * h / r ≤ i * step h r S / S + 1 := by
  have hstep := lt_step_succ_mul h S hr
  have hfloor : i * h / r * S ≤ i * step h r S + i := by
    apply Nat.le_of_mul_le_mul_right _ hr
    calc i * h / r * S * r
        = i * h / r * r * S := by ring
      _ ≤ i * h * S := Nat.mul_le_mul_right S (Nat.div_mul_le_self _ _)
      _ = i * (h * S) := by ring
      _ ≤ i * ((step h r S + 1) * r) :=
          Nat.mul_le_mul_left i (Nat.le_of_lt hstep)
      _ = (i * step h r S + i) * r := by ring
  calc i * h / r
      ≤ (i * step h r S + S) / S := by
        rw [Nat.le_div_iff_mul_le hS]
        exact Nat.le_trans hfloor (Nat.add_le_add_left hi _)
    _ = i * step h r S / S + 1 := Nat.add_div_right _ hS

end FixedPoint
end Foundation
end LowLatency
