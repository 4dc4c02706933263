import LowLatency.Capacity

/-!
# Layouts and hugepage sizes

The allocators compute the layout of an array of slots with `Layout::array` and
round its size up to whole hugepages.
-/

namespace LowLatency
namespace Mem

open Foundation

variable {W : Nat}

structure Layout (W : Nat) where
  size : BitVec W
  align : BitVec W
  alignLog : Nat
  isPowerOfTwo : align.toNat = 2 ^ alignLog
deriving DecidableEq, Repr

/-- The layout of a type; its size is a multiple of its alignment. -/
structure TypeLayout (W : Nat) extends Layout W where
  align_dvd : align.toNat ∣ size.toNat
deriving DecidableEq, Repr

namespace Layout

/-- The greatest size that can be rounded up to the alignment in an `isize`. -/
def maxSizeForAlign (align : BitVec W) : BitVec W :=
  BitVec.ofNat W (2 ^ (W - 1)) - align

/-- `Layout::array`; `none` is the `LayoutError`. -/
def array (T : TypeLayout W) (n : BitVec W) : Option (Layout W) :=
  if T.size ≠ 0#W ∧ maxSizeForAlign T.align / T.size < n then none
  else some { T.toLayout with size := T.size * n }

theorem align_le (layout : Layout W) : layout.align.toNat ≤ 2 ^ (W - 1) := by
  have hlt := layout.align.isLt
  rw [layout.isPowerOfTwo] at hlt ⊢
  have hlog := (Nat.pow_lt_pow_iff_right Nat.one_lt_two).mp hlt
  exact Nat.pow_le_pow_right Nat.two_pos (by lia)

theorem width_pos (layout : Layout W) : 0 < W := by
  have hlt := layout.align.isLt
  rw [layout.isPowerOfTwo] at hlt
  have hlog := (Nat.pow_lt_pow_iff_right Nat.one_lt_two).mp hlt
  lia

theorem toNat_maxSizeForAlign (layout : Layout W) :
    (maxSizeForAlign layout.align).toNat =
      2 ^ (W - 1) - layout.align.toNat := by
  have htop : (BitVec.ofNat W (2 ^ (W - 1))).toNat = 2 ^ (W - 1) := by
    rw [BitVec.toNat_ofNat, Nat.mod_eq_of_lt]
    exact Nat.pow_lt_pow_right Nat.one_lt_two (by have := layout.width_pos; lia)
  rw [maxSizeForAlign, BitVec.toNat_sub_of_le, htop]
  rw [BitVec.le_def, htop]
  exact layout.align_le

/-- What a successful `Layout::array` guarantees. -/
theorem array_spec {T : TypeLayout W} {n : BitVec W} {layout : Layout W}
    (h : array T n = some layout) :
    layout.align = T.align ∧
      layout.size.toNat = T.size.toNat * n.toNat ∧
      layout.size.toNat + T.align.toNat ≤ 2 ^ (W - 1) := by
  unfold array at h
  split at h
  · cases h
  · rename_i hfits
    rw [← Option.some.inj h]
    have hle := T.align_le
    rcases eq_or_ne T.size 0#W with hzero | hsize
    · refine ⟨rfl, ?_, ?_⟩
      · simp [hzero]
      · simpa [hzero] using hle
    · have hn : n.toNat ≤ (2 ^ (W - 1) - T.align.toNat) / T.size.toNat := by
        have hnot : ¬maxSizeForAlign T.align / T.size < n :=
          fun hlt => hfits ⟨hsize, hlt⟩
        rw [BitVec.lt_def, BitVec.toNat_udiv,
          T.toLayout.toNat_maxSizeForAlign] at hnot
        exact Nat.not_lt.mp hnot
      have hprod : T.size.toNat * n.toNat ≤ 2 ^ (W - 1) - T.align.toNat := by
        rw [Nat.mul_comm]
        exact Nat.le_trans (Nat.mul_le_mul_right _ hn) (Nat.div_mul_le_self _ _)
      have hhalf : 2 ^ (W - 1) < 2 ^ W :=
        Nat.pow_lt_pow_right Nat.one_lt_two
          (by have := T.toLayout.width_pos; lia)
      have hmul : (T.size * n).toNat = T.size.toNat * n.toNat :=
        BitVec.toNat_mul_of_lt (by lia)
      refine ⟨rfl, hmul, ?_⟩
      show (T.size * n).toNat + T.align.toNat ≤ 2 ^ (W - 1)
      lia

end Layout

/-!
## Hugepage sizes
-/

inductive HugepageSize where
  | h64KB
  | h512KB
  | h1MB
  | h2MB
  | h8MB
  | h16MB
  | h32MB
  | h256MB
  | h512MB
deriving DecidableEq, Repr

namespace HugepageSize

def asUsizeBytes (W : Nat) : HugepageSize -> BitVec W
  | h64KB => BitVec.ofNat W (64 * 1024)
  | h512KB => BitVec.ofNat W (512 * 1024)
  | h1MB => BitVec.ofNat W (1024 * 1024)
  | h2MB => BitVec.ofNat W (2 * 1024 * 1024)
  | h8MB => BitVec.ofNat W (8 * 1024 * 1024)
  | h16MB => BitVec.ofNat W (16 * 1024 * 1024)
  | h32MB => BitVec.ofNat W (32 * 1024 * 1024)
  | h256MB => BitVec.ofNat W (256 * 1024 * 1024)
  | h512MB => BitVec.ofNat W (512 * 1024 * 1024)

def asMmapSizeFlag : HugepageSize -> Nat
  | h64KB => 16 <<< 26
  | h512KB => 19 <<< 26
  | h1MB => 20 <<< 26
  | h2MB => 21 <<< 26
  | h8MB => 23 <<< 26
  | h16MB => 24 <<< 26
  | h32MB => 25 <<< 26
  | h256MB => 28 <<< 26
  | h512MB => 29 <<< 26

theorem toNat_asUsizeBytes (hW : 30 ≤ W) (page : HugepageSize) :
    (page.asUsizeBytes W).toNat = 2 ^ (page.asMmapSizeFlag >>> 26) := by
  have hlt : 2 ^ 30 ≤ 2 ^ W := Nat.pow_le_pow_right Nat.two_pos hW
  cases page <;>
    exact Nat.mod_eq_of_lt (Nat.lt_of_lt_of_le (by decide) hlt)

theorem flag_le (page : HugepageSize) : page.asMmapSizeFlag >>> 26 ≤ 29 := by
  cases page <;> decide

theorem asUsizeBytes_le (hW : 30 ≤ W) (page : HugepageSize) :
    (page.asUsizeBytes W).toNat ≤ 2 ^ (W - 1) := by
  have hflag := page.flag_le
  rw [page.toNat_asUsizeBytes hW]
  exact Nat.pow_le_pow_right Nat.two_pos (by lia)

end HugepageSize
end Mem
end LowLatency
