import Mathlib.Data.Nat.ModEq

/-!
# Wrapping machine words

Counters that only ever grow are stored in words of `W` bits.  A word is
written here as `BitVec.ofNat W n`, where the natural number `n` is
the unbounded counter it stands for.  The lemmas say which facts about
unbounded counters survive the wrap-around.
-/

namespace LowLatency
namespace Foundation
namespace Words

variable {W : Nat}

/-!
## Arithmetic on stored counters
-/

theorem ofNat_mul_two (n : Nat) :
    BitVec.ofNat W n * 2#W = BitVec.ofNat W (2 * n) := by
  rw [Nat.mul_comm]
  exact (BitVec.ofNat_mul n 2).symm

theorem ofNat_sub_ofNat {a b : Nat} (h : b ≤ a) :
    BitVec.ofNat W a - BitVec.ofNat W b = BitVec.ofNat W (a - b) := by
  have hsplit : BitVec.ofNat W (a - b) + BitVec.ofNat W b = BitVec.ofNat W a := by
    rw [BitVec.ofNat_add_ofNat, Nat.sub_add_cancel h]
  rw [← hsplit, BitVec.add_sub_cancel]

/-!
## Equality of stored counters

Two counters are stored in the same word exactly when they are congruent; a
bound on their distance turns this into equality.
-/

theorem ofNat_eq_iff_modEq {a b : Nat} :
    BitVec.ofNat W a = BitVec.ofNat W b <-> Nat.ModEq (2 ^ W) a b := by
  rw [← BitVec.toNat_inj, BitVec.toNat_ofNat, BitVec.toNat_ofNat]
  rfl

theorem eq_of_modEq_of_lt_add {m a b : Nat}
    (hle : a ≤ b) (hlt : b < a + m) (h : Nat.ModEq m a b) : a = b := by
  have hdvd : m ∣ b - a := (Nat.modEq_iff_dvd' hle).mp h
  have hzero : b - a = 0 := Nat.eq_zero_of_dvd_of_lt hdvd (by lia)
  lia

theorem eq_of_ofNat_eq {a b : Nat} (hle : a ≤ b) (hlt : b < a + 2 ^ W)
    (h : BitVec.ofNat W a = BitVec.ofNat W b) : a = b :=
  eq_of_modEq_of_lt_add hle hlt (ofNat_eq_iff_modEq.mp h)

theorem ofNat_ne_of_lt {a b : Nat} (hab : a < b) (hlt : b < a + 2 ^ W) :
    BitVec.ofNat W a ≠ BitVec.ofNat W b := by
  intro h
  have hEq := eq_of_ofNat_eq (Nat.le_of_lt hab) hlt h
  lia

theorem two_pow_pred {W : Nat} (hW : 0 < W) : 2 ^ W = 2 * 2 ^ (W - 1) := by
  rw [← Nat.pow_succ', Nat.succ_eq_add_one, Nat.sub_add_cancel hW]

theorem ofNat_two_mul_eq_iff (hW : 0 < W) {a b : Nat} :
    BitVec.ofNat W (2 * a) = BitVec.ofNat W (2 * b) <->
      Nat.ModEq (2 ^ (W - 1)) a b := by
  rw [ofNat_eq_iff_modEq, two_pow_pred hW]
  constructor
  · intro h
    exact Nat.ModEq.mul_left_cancel' (by lia) h
  · intro h
    exact Nat.ModEq.mul_left' 2 h

theorem eq_of_ofNat_two_mul_eq (hW : 0 < W) {a b : Nat}
    (hle : a ≤ b) (hlt : b < a + 2 ^ (W - 1))
    (h : BitVec.ofNat W (2 * a) = BitVec.ofNat W (2 * b)) : a = b :=
  eq_of_modEq_of_lt_add hle hlt ((ofNat_two_mul_eq_iff hW).mp h)

/-!
## Parity of stored counters
-/

theorem toNat_one (hW : 0 < W) : (1#W).toNat = 1 :=
  Nat.mod_eq_of_lt (Nat.one_lt_two_pow (Nat.ne_of_gt hW))

theorem ofNat_and_one (hW : 0 < W) (n : Nat) :
    BitVec.ofNat W n &&& 1#W = BitVec.ofNat W (n % 2) := by
  apply BitVec.eq_of_toNat_eq
  have hdvd : 2 ∣ 2 ^ W := dvd_pow_self 2 (Nat.ne_of_gt hW)
  have hsmall : n % 2 < 2 ^ W := by
    have hone := Nat.one_lt_two_pow (Nat.ne_of_gt hW)
    lia
  rw [BitVec.toNat_and, toNat_one hW, Nat.and_one_is_mod, BitVec.toNat_ofNat,
    Nat.mod_mod_of_dvd n hdvd, BitVec.toNat_ofNat, Nat.mod_eq_of_lt hsmall]

theorem odd_test_odd (hW : 0 < W) (n : Nat) :
    BitVec.ofNat W (2 * n + 1) &&& 1#W = 1#W := by
  rw [ofNat_and_one hW, show (2 * n + 1) % 2 = 1 by lia]

theorem odd_test_even (hW : 0 < W) (n : Nat) :
    BitVec.ofNat W (2 * n) &&& 1#W ≠ 1#W := by
  rw [ofNat_and_one hW, show (2 * n) % 2 = 0 by lia]
  exact ofNat_ne_of_lt Nat.zero_lt_one
    (by have hone := Nat.one_lt_two_pow (Nat.ne_of_gt hW); lia)

theorem add_two_and_one (hW : 0 < W) (x : BitVec W) :
    (x + 2#W) &&& 1#W = x &&& 1#W := by
  have hx : x = BitVec.ofNat W x.toNat := by simp
  rw [hx, BitVec.ofNat_add_ofNat, ofNat_and_one hW, ofNat_and_one hW,
    Nat.add_mod_right]

theorem ofNat_even_ne_odd (hW : 0 < W) (a b : Nat) :
    BitVec.ofNat W (2 * a) ≠ BitVec.ofNat W (2 * b + 1) := by
  intro h
  apply odd_test_even hW a
  rw [h]
  exact odd_test_odd hW b

/-!
## Power-of-two masks
-/

theorem toNat_sub_one_of_pos {c : BitVec W} (h : 0 < c.toNat) :
    (c - 1#W).toNat = c.toNat - 1 := by
  have hlt := c.isLt
  have hW : 0 < W := by
    rcases Nat.eq_zero_or_pos W with hzero | hpos
    · subst hzero
      lia
    · exact hpos
  have hone := toNat_one hW
  rw [BitVec.toNat_sub_of_le]
  · rw [hone]
  · rw [BitVec.le_def, hone]
    exact h

theorem toNat_pos_of_two_pow {c : BitVec W} {k : Nat} (hc : c.toNat = 2 ^ k) :
    0 < c.toNat := by
  rw [hc]
  exact Nat.two_pow_pos k

/-- Masking with a power of two minus one is the remainder. -/
theorem toNat_and_mask {c : BitVec W} {k : Nat} (hc : c.toNat = 2 ^ k)
    (i : BitVec W) : (i &&& (c - 1#W)).toNat = i.toNat % c.toNat := by
  rw [BitVec.toNat_and, toNat_sub_one_of_pos (toNat_pos_of_two_pow hc), hc,
    Nat.and_two_pow_sub_one_eq_mod]

theorem toNat_ofNat_and_mask {c : BitVec W} {k : Nat} (hc : c.toNat = 2 ^ k)
    (n : Nat) : (BitVec.ofNat W n &&& (c - 1#W)).toNat = n % c.toNat := by
  have hk : k < W := by
    have hlt := c.isLt
    rw [hc] at hlt
    exact (Nat.pow_lt_pow_iff_right Nat.one_lt_two).mp hlt
  have hdvd : c.toNat ∣ 2 ^ W := by
    rw [hc]
    exact Nat.pow_dvd_pow 2 (Nat.le_of_lt hk)
  rw [toNat_and_mask hc, BitVec.toNat_ofNat, Nat.mod_mod_of_dvd n hdvd]

/-!
## Checked addition

A sum that does not fit in the word is a panic, written `none`.
-/

def checkedAdd (a b : BitVec W) : Option (BitVec W) :=
  if a.toNat + b.toNat < 2 ^ W then some (a + b) else none

theorem checkedAdd_eq_some {a b : BitVec W} (h : a.toNat + b.toNat < 2 ^ W) :
    checkedAdd a b = some (a + b) := by
  rw [checkedAdd, if_pos h]

theorem checkedAdd_eq_none {a b : BitVec W} (h : 2 ^ W ≤ a.toNat + b.toNat) :
    checkedAdd a b = none := by
  rw [checkedAdd, if_neg (Nat.not_lt.mpr h)]

theorem checkedAdd_ofNat_one {n : Nat} (h : n + 1 < 2 ^ W) :
    checkedAdd (BitVec.ofNat W n) 1#W = some (BitVec.ofNat W n + 1#W) := by
  apply checkedAdd_eq_some
  rw [BitVec.toNat_ofNat, BitVec.toNat_ofNat, Nat.mod_eq_of_lt (by lia),
    Nat.mod_eq_of_lt (by lia)]
  exact h

theorem checkedAdd_last_one (hW : 0 < W) {n : Nat} (h : n + 1 = 2 ^ W) :
    checkedAdd (BitVec.ofNat W n) 1#W = none := by
  apply checkedAdd_eq_none
  rw [BitVec.toNat_ofNat, Nat.mod_eq_of_lt (by lia), toNat_one hW]
  lia

/-!
## Checked subtraction and rounding up to a power of two
-/

def checkedSub (a b : BitVec W) : Option (BitVec W) :=
  if b.toNat ≤ a.toNat then some (a - b) else none

theorem checkedSub_eq_some {a b : BitVec W} (h : b.toNat ≤ a.toNat) :
    checkedSub a b = some (a - b) := by
  rw [checkedSub, if_pos h]

/-- `(n + p - 1) & !(p - 1)`. -/
def roundUp (n p : BitVec W) : BitVec W :=
  (n + p - 1#W) &&& ~~~(p - 1#W)

def roundUpChecked (n p : BitVec W) : Option (BitVec W) := do
  let sum <- checkedAdd n p
  let last <- checkedSub sum 1#W
  let mask <- checkedSub p 1#W
  some (last &&& ~~~mask)

theorem and_add_and_not (x mask : BitVec W) :
    (x &&& mask) + (x &&& ~~~mask) = x := by
  have hdisjoint : (x &&& mask) &&& (x &&& ~~~mask) = 0#W := by
    ext i
    simp
    intro _ hmask _
    exact hmask
  rw [BitVec.add_eq_or_of_and_eq_zero _ _ hdisjoint]
  ext i
  simp
  cases x[i] <;> simp

theorem toNat_and_not_mask {c : BitVec W} {k : Nat} (hc : c.toNat = 2 ^ k)
    (x : BitVec W) :
    (x &&& ~~~(c - 1#W)).toNat = c.toNat * (x.toNat / c.toNat) := by
  have hsum := and_add_and_not x (c - 1#W)
  have hle : (x &&& (c - 1#W)).toNat ≤ x.toNat := by
    rw [BitVec.toNat_and]
    exact Nat.and_le_left
  have hrest : x &&& ~~~(c - 1#W) = x - (x &&& (c - 1#W)) := by
    rw [BitVec.add_comm] at hsum
    calc x &&& ~~~(c - 1#W)
        = (x &&& ~~~(c - 1#W)) + (x &&& (c - 1#W)) - (x &&& (c - 1#W)) :=
          (BitVec.add_sub_cancel _ _).symm
      _ = x - (x &&& (c - 1#W)) := by rw [hsum]
  rw [hrest, BitVec.toNat_sub_of_le (BitVec.le_def.mpr hle),
    toNat_and_mask hc]
  have hsplit := Nat.div_add_mod x.toNat c.toNat
  lia

section Rounding

variable {n p : BitVec W} {k : Nat}

theorem toNat_roundUp (hp : p.toNat = 2 ^ k)
    (hfit : n.toNat + p.toNat < 2 ^ W) :
    (roundUp n p).toNat =
      p.toNat * ((n.toNat + p.toNat - 1) / p.toNat) := by
  have hpos := toNat_pos_of_two_pow hp
  have hsum := BitVec.toNat_add_of_lt hfit
  rw [roundUp, toNat_and_not_mask hp, toNat_sub_one_of_pos (by lia), hsum]

theorem roundUpChecked_eq_some (hp : p.toNat = 2 ^ k)
    (hfit : n.toNat + p.toNat < 2 ^ W) :
    roundUpChecked n p = some (roundUp n p) := by
  have hpos := toNat_pos_of_two_pow hp
  have hW : 0 < W := by
    rcases Nat.eq_zero_or_pos W with rfl | hW
    · have hlt := p.isLt
      lia
    · exact hW
  have hsum := BitVec.toNat_add_of_lt hfit
  have hone := toNat_one hW
  simp only [roundUpChecked, checkedAdd_eq_some hfit, Option.bind_eq_bind,
    Option.bind_some]
  rw [checkedSub_eq_some (by rw [hsum, hone]; lia)]
  simp only [Option.bind_some]
  rw [checkedSub_eq_some (by rw [hone]; lia)]
  rfl

theorem dvd_roundUp (hp : p.toNat = 2 ^ k)
    (hfit : n.toNat + p.toNat < 2 ^ W) : p.toNat ∣ (roundUp n p).toNat := by
  rw [toNat_roundUp hp hfit]
  exact Nat.dvd_mul_right _ _

theorem le_roundUp (hp : p.toNat = 2 ^ k)
    (hfit : n.toNat + p.toNat < 2 ^ W) : n.toNat ≤ (roundUp n p).toNat := by
  have hpos := toNat_pos_of_two_pow hp
  have hsplit := Nat.div_add_mod (n.toNat + p.toNat - 1) p.toNat
  have hmod := Nat.mod_lt (n.toNat + p.toNat - 1) hpos
  rw [toNat_roundUp hp hfit]
  lia

theorem roundUp_lt (hp : p.toNat = 2 ^ k)
    (hfit : n.toNat + p.toNat < 2 ^ W) :
    (roundUp n p).toNat < n.toNat + p.toNat := by
  have hpos := toNat_pos_of_two_pow hp
  have hle := Nat.mul_div_le (n.toNat + p.toNat - 1) p.toNat
  rw [toNat_roundUp hp hfit]
  lia

theorem roundUp_le (hp : p.toNat = 2 ^ k)
    (hfit : n.toNat + p.toNat < 2 ^ W) {m : Nat} (hdvd : p.toNat ∣ m)
    (hm : n.toNat ≤ m) : (roundUp n p).toNat ≤ m := by
  have hpos := toNat_pos_of_two_pow hp
  rcases hdvd with ⟨q, rfl⟩
  rw [toNat_roundUp hp hfit]
  apply Nat.mul_le_mul_left
  apply Nat.le_of_lt_succ
  rw [Nat.div_lt_iff_lt_mul hpos, Nat.succ_mul, Nat.mul_comm q]
  lia

end Rounding

end Words
end Foundation
end LowLatency
