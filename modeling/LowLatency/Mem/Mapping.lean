import LowLatency.Mem.Contract

/-!
# Slots inside a mapping

The length of a mapping is the size of the slot buffer rounded up to whole
pages.  All accesses to the buffer go through masked counters, so every slot
lies inside that length.
-/

namespace LowLatency
namespace Mem

open Foundation

variable {W : Nat} {cap : Capacity W} {s : BitVec W}

def slotBytes (cap : Capacity W) (s i : BitVec W) : ByteRange :=
  ⟨(cap.slotIndex i).val * s.toNat,
    (cap.slotIndex i).val * s.toNat + s.toNat⟩

/-!
## Slots
-/

theorem slotBytes_le (cap : Capacity W) (s i : BitVec W) :
    (slotBytes cap s i).stop ≤ cap.size * s.toNat := by
  have hlt := (cap.slotIndex i).isLt
  calc (cap.slotIndex i).val * s.toNat + s.toNat
      = ((cap.slotIndex i).val + 1) * s.toNat := by rw [Nat.succ_mul]
    _ ≤ cap.size * s.toNat := Nat.mul_le_mul_right _ hlt

theorem slotBytes_disjoint {i j : BitVec W}
    (h : cap.slotIndex i ≠ cap.slotIndex j) :
    (slotBytes cap s i).Disjoint (slotBytes cap s j) := by
  have hbefore : forall a b : Nat, a < b ->
      a * s.toNat + s.toNat ≤ b * s.toNat := by
    intro a b hab
    rw [← Nat.succ_mul]
    exact Nat.mul_le_mul_right _ hab
  unfold ByteRange.Disjoint slotBytes
  rcases Nat.lt_or_gt_of_ne (fun heq => h (Fin.ext heq)) with hlt | hgt
  · have hle := hbefore _ _ hlt
    dsimp only
    lia
  · have hle := hbefore _ _ hgt
    dsimp only
    lia

theorem slotIndex_add_ne (cap : Capacity W) (i : BitVec W) {j k : Nat}
    (hjk : j < k) (hk : k < cap.size) :
    cap.slotIndex (i + BitVec.ofNat W j) ≠
      cap.slotIndex (i + BitVec.ofNat W k) := by
  have hi : i = BitVec.ofNat W i.toNat := by simp
  rw [hi, BitVec.ofNat_add_ofNat, BitVec.ofNat_add_ofNat]
  exact cap.slotOf_ne_of_lt (by lia) (by lia)

/-!
## Lengths
-/

theorem toNat_buffer (hW : 0 < W)
    (hfit : cap.size * s.toNat ≤ 2 ^ (W - 1) - 1) :
    (s * cap.value).toNat = cap.size * s.toNat := by
  have hsplit := Words.two_pow_pred hW
  have hpos := Nat.two_pow_pos (W - 1)
  rw [Nat.mul_comm]
  apply BitVec.toNat_mul_of_lt
  rw [Nat.mul_comm]
  show cap.size * s.toNat < 2 ^ W
  lia

theorem array_size {T : TypeLayout W} {n : BitVec W} {layout : Layout W}
    (h : Layout.array T n = some layout) : layout.size = T.size * n := by
  unfold Layout.array at h
  split at h
  · cases h
  · rw [← Option.some.inj h]

theorem allocSize_array {T : TypeLayout W} {n s : BitVec W}
    {layout : Layout W} (h : Layout.array T n = some layout) (hT : T.size = s)
    (page : HugepageSize) :
    allocSize layout page =
      Words.roundUp (s * n) (page.asUsizeBytes W) := by
  rw [allocSize, array_size h, hT]

/-- The calls behind a mapping: one length for all of them. -/
theorem calls_of_mapping {T : TypeLayout W} {items : BitVec W}
    {options : HugepageAllocatorOptions} {answers : Answers W} {os os' : Os W}
    {a : Allocation W}
    (h : allocate T items (Options.hugepages options) answers os =
      EStateM.Result.ok a os') :
    exists layout ptr, Layout.array T items = some layout ∧
      a = Allocation.hugepages
        ⟨ptr, allocSize layout options.hugepageSize⟩ ∧
      os'.calls = os.calls ++
        [SysCall.mmap (allocSize layout options.hugepageSize)
          options.hugepageSize.asMmapSizeFlag] ++
        (if options.mlock then
          [SysCall.mlock ptr (allocSize layout options.hugepageSize)]
        else []) := by
  have houtcome := allocate_outcome T items (Options.hugepages options)
    answers os
  rw [h] at houtcome
  cases houtcome with
  | plain layout ptr harray haddress hmlock =>
      refine ⟨layout, ptr, harray, rfl, ?_⟩
      rw [show options.mlock = false from hmlock]
      exact (List.append_nil _).symm
  | locked layout ptr harray haddress hmlock hlock =>
      refine ⟨layout, ptr, harray, rfl, ?_⟩
      rw [show options.mlock = true from hmlock]
      rfl

/-- The same length when `mlock` fails, after which nothing unmaps it. -/
theorem calls_of_failed_mlock {T : TypeLayout W} {items : BitVec W}
    {options : HugepageAllocatorOptions} {answers : Answers W} {os os' : Os W}
    {e : String}
    (h : allocate T items (Options.hugepages options) answers os =
      EStateM.Result.error (Panic.mlockHugepageFailed e) os') :
    exists layout ptr, Layout.array T items = some layout ∧
      os'.calls = os.calls ++
        [SysCall.mmap (allocSize layout options.hugepageSize)
          options.hugepageSize.asMmapSizeFlag,
          SysCall.mlock ptr (allocSize layout options.hugepageSize)] := by
  have houtcome := allocate_outcome T items (Options.hugepages options)
    answers os
  rw [h] at houtcome
  cases houtcome with
  | lockFailed layout ptr harray haddress hmlock hlock =>
      refine ⟨layout, ptr, harray, ?_⟩
      exact List.append_assoc _ _ _

/--
The rounding stays inside the word, is exact, and is the length of every call
for the mapping, also when `mlock` fails.  Inside it lie all slots, and `CAPACITY` consecutive counters
have `CAPACITY` different slots.
-/
theorem mapping_covers_slots (hW : 30 ≤ W) (cap : Capacity W) (s : BitVec W)
    (hs : 1 ≤ s.toNat) (hfit : cap.size * s.toNat ≤ 2 ^ (W - 1) - 1)
    (page : HugepageSize) :
    exists length,
      Words.roundUpChecked (s * cap.value) (page.asUsizeBytes W) =
        some length ∧
      ((page.asUsizeBytes W).toNat ∣ length.toNat ∧
        cap.size * s.toNat ≤ length.toNat ∧
        forall n, (page.asUsizeBytes W).toNat ∣ n ->
          cap.size * s.toNat ≤ n -> length.toNat ≤ n) ∧
      (forall (T : TypeLayout W) (mlock : Bool) (answers : Answers W)
        (os os' : Os W) (a : Allocation W), T.size = s ->
          allocate T cap.value (Options.hugepages ⟨mlock, page⟩) answers os =
            EStateM.Result.ok a os' ->
          exists ptr, a = Allocation.hugepages ⟨ptr, length⟩ ∧
            os'.calls = os.calls ++
              [SysCall.mmap length page.asMmapSizeFlag] ++
              (if mlock then [SysCall.mlock ptr length] else []) ∧
            forall (e : String) (later : Os W),
              (after (a.drop e later)).calls =
                later.calls ++ [SysCall.munmap ptr length]) ∧
      (forall (T : TypeLayout W) (mlock : Bool) (answers : Answers W)
        (os os' : Os W) (e : String), T.size = s ->
          allocate T cap.value (Options.hugepages ⟨mlock, page⟩) answers os =
            EStateM.Result.error (Panic.mlockHugepageFailed e) os' ->
          exists ptr, os'.calls = os.calls ++
            [SysCall.mmap length page.asMmapSizeFlag,
              SysCall.mlock ptr length]) ∧
      (forall i, (slotBytes cap s i).start < (slotBytes cap s i).stop ∧
        (slotBytes cap s i).stop ≤ length.toNat) ∧
      (forall (i : BitVec W) (j k : Nat), j < k -> k < cap.size ->
        cap.slotIndex (i + BitVec.ofNat W j) ≠
            cap.slotIndex (i + BitVec.ofNat W k) ∧
          (slotBytes cap s (i + BitVec.ofNat W j)).Disjoint
            (slotBytes cap s (i + BitVec.ofNat W k))) := by
  have hsize := toNat_buffer (by lia) hfit
  have hpage := page.toNat_asUsizeBytes hW
  have hround : (s * cap.value).toNat + (page.asUsizeBytes W).toNat <
      2 ^ W := by
    have hle := page.asUsizeBytes_le hW
    have hsplit := Words.two_pow_pred (show 0 < W by lia)
    have hpos := Nat.two_pow_pos (W - 1)
    lia
  have hle := Words.le_roundUp hpage hround
  rw [hsize] at hle
  refine ⟨Words.roundUp (s * cap.value) (page.asUsizeBytes W),
    Words.roundUpChecked_eq_some hpage hround, ⟨?_, hle, ?_⟩, ?_, ?_, ?_, ?_⟩
  · exact Words.dvd_roundUp hpage hround
  · intro n hdvd hn
    exact Words.roundUp_le hpage hround hdvd (by rw [hsize]; exact hn)
  · intro T mlock answers os os' a hT h
    rcases calls_of_mapping h with ⟨layout, ptr, harray, rfl, hcalls⟩
    have hlength := allocSize_array harray hT page
    dsimp only at hcalls
    rw [hlength] at hcalls
    refine ⟨ptr, by rw [hlength], hcalls, ?_⟩
    intro e later
    rw [calls_of_drop, Allocation.giveBack, hlength]
  · intro T mlock answers os os' e hT h
    rcases calls_of_failed_mlock h with ⟨layout, ptr, harray, hcalls⟩
    rw [allocSize_array harray hT page] at hcalls
    exact ⟨ptr, hcalls⟩
  · intro i
    constructor
    · exact Nat.lt_add_of_pos_right hs
    · exact Nat.le_trans (slotBytes_le cap s i) hle
  · intro i j k hjk hk
    have hne := slotIndex_add_ne cap i hjk hk
    exact ⟨hne, slotBytes_disjoint hne⟩

/-- The largest buffer of a 32-bit machine with items of 7 bytes. -/
theorem mapping_covers_slots_near_top :
    exists length,
      Words.roundUpChecked (7#32 * 268435456#32)
        (HugepageSize.h512MB.asUsizeBytes 32) = some length ∧
      forall i, (slotBytes (⟨268435456#32, 28, rfl⟩ : Capacity 32) 7#32 i).stop
        ≤ length.toNat := by
  rcases mapping_covers_slots (by decide)
    (⟨268435456#32, 28, rfl⟩ : Capacity 32) 7#32 (by decide) (by decide)
    HugepageSize.h512MB with ⟨length, hround, _, _, _, hslots, _⟩
  exact ⟨length, hround, fun i => (hslots i).right⟩

end Mem
end LowLatency
