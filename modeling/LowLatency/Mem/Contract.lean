import LowLatency.Mem.Allocators

/-!
# The contracts of the allocators

`spsc::new` asks an allocator for `CAPACITY` cells of any type `T`,
`spmc::new` for `CAPACITY` cells of a slot that has a sequence number next to
its data.  An allocator must not make a call that its callee forbids, and must
return an aligned base with room for all cells.
-/

namespace LowLatency
namespace Mem

open Foundation

variable {W : Nat}

/-!
## Rounded lengths
-/

section Rounded

variable {T : TypeLayout W} {items : BitVec W} {layout : Layout W}

theorem round_fits (hW : 30 ≤ W) (page : HugepageSize)
    (harray : Layout.array T items = some layout) :
    layout.size.toNat + (page.asUsizeBytes W).toNat < 2 ^ W := by
  have hsize := (Layout.array_spec harray).right.right
  have halign := Words.toNat_pos_of_two_pow T.isPowerOfTwo
  have hpage := page.asUsizeBytes_le hW
  have hsplit := Words.two_pow_pred (show 0 < W by lia)
  lia

theorem le_allocSize (hW : 30 ≤ W) (page : HugepageSize)
    (harray : Layout.array T items = some layout) :
    layout.size.toNat ≤ (allocSize layout page).toNat :=
  Words.le_roundUp (page.toNat_asUsizeBytes hW) (round_fits hW page harray)

theorem allocSize_zero (hW : 30 ≤ W) (page : HugepageSize)
    (harray : Layout.array T items = some layout)
    (hzero : layout.size = 0#W) : allocSize layout page = 0#W := by
  have hle : (allocSize layout page).toNat ≤ 0 := by
    apply Words.roundUp_le (page.toNat_asUsizeBytes hW)
      (round_fits hW page harray) (Nat.dvd_zero _)
    rw [hzero]
    exact Nat.le_of_eq BitVec.toNat_zero
  apply BitVec.eq_of_toNat_eq
  rw [BitVec.toNat_zero]
  exact Nat.le_zero.mp hle

end Rounded

/-!
## The contracts
-/

/-- The documented precondition of each call. -/
def SysCall.Allowed : SysCall W -> Prop
  | SysCall.alloc layout => layout.size ≠ 0#W
  | SysCall.mmap length _ => length ≠ 0#W
  | _ => True

/-- Of an address, `alloc` promises the layout's alignment, `mmap` a page's. -/
def Options.alignment (options : Options) (layout : Layout W) : BitVec W :=
  match options with
  | Options.global _ => layout.align
  | Options.hugepages options => options.hugepageSize.asUsizeBytes W

/-- What the system promises of an address: a place for the region. -/
structure Promised (options : Options) (layout : Layout W) (ptr : BitVec W) :
    Prop where
  nonnull : ptr ≠ 0#W
  inMemory :
    ptr.toNat + (options.region layout ptr).length.toNat ≤ 2 ^ W
  aligned : (options.alignment layout).toNat ∣ ptr.toNat

/-- A contiguous, aligned region for `items` cells of `T`. -/
structure HoldsCells (T : TypeLayout W) (items : BitVec W)
    (a : Allocation W) (os : Os W) : Prop where
  obtained : a.region ∈ os.regions
  base : a.region.base = a.ptr
  aligned : T.align.toNat ∣ a.ptr.toNat
  room : items.toNat * T.size.toNat ≤ a.region.length.toNat

/-- No `allocate` makes a forbidden call or returns a region that is unfit. -/
def Respects (T : TypeLayout W) (items : BitVec W) (options : Options) :
    Prop :=
  forall (answers : Answers W) (os : Os W),
    (forall layout ptr, Layout.array T items = some layout ->
      answers.address = some ptr -> Promised options layout ptr) ->
    (forall call, call ∈ (after (allocate T items options answers os)).calls ->
      call ∈ os.calls ∨ call.Allowed) ∧
    (forall a os', allocate T items options answers os =
      EStateM.Result.ok a os' -> HoldsCells T items a os')

def Options.Aligns (options : Options) (T : TypeLayout W) : Prop :=
  match options with
  | Options.global _ => True
  | Options.hugepages options =>
      T.align.toNat ≤ (options.hugepageSize.asUsizeBytes W).toNat

/-!
## When they are met
-/

section Met

variable {T : TypeLayout W} {items : BitVec W} {options : Options}
variable {layout : Layout W}

theorem array_size_ne_zero (hitems : 0 < items.toNat)
    (harray : Layout.array T items = some layout) :
    layout.size ≠ 0#W <-> T.size ≠ 0#W := by
  have hsize := (Layout.array_spec harray).right.left
  have hzero : forall x : BitVec W, x ≠ 0#W <-> x.toNat ≠ 0 := by
    intro x
    rw [Ne, ← BitVec.toNat_inj, BitVec.toNat_zero]
  rw [hzero, hzero, hsize]
  constructor
  · intro hprod hT
    rw [hT, Nat.zero_mul] at hprod
    exact hprod rfl
  · intro hT
    exact Nat.mul_ne_zero hT (Nat.ne_of_gt hitems)

theorem request_allowed (hW : 30 ≤ W) (hitems : 0 < items.toNat)
    (harray : Layout.array T items = some layout) :
    (options.request layout).Allowed <-> T.size ≠ 0#W := by
  rw [← array_size_ne_zero hitems harray]
  cases options with
  | global options => exact Iff.rfl
  | hugepages options =>
      constructor
      · intro hallowed hzero
        exact hallowed (allocSize_zero hW _ harray hzero)
      · intro hsize hzero
        have hle := le_allocSize hW options.hugepageSize harray
        rw [hzero, BitVec.toNat_zero] at hle
        apply hsize
        apply BitVec.eq_of_toNat_eq
        rw [BitVec.toNat_zero]
        exact Nat.le_zero.mp hle

theorem aligns_of_promised (hW : 30 ≤ W) (halign : options.Aligns T)
    (harray : Layout.array T items = some layout) {ptr : BitVec W}
    (hptr : Promised options layout ptr) : T.align.toNat ∣ ptr.toNat := by
  have hpromise := hptr.aligned
  cases options with
  | global options =>
      rw [← (Layout.array_spec harray).left]
      exact hpromise
  | hugepages options =>
      apply Nat.dvd_trans _ hpromise
      have hle : T.align.toNat ≤
          (options.hugepageSize.asUsizeBytes W).toNat := halign
      have hpage := options.hugepageSize.toNat_asUsizeBytes hW
      rw [hpage, T.isPowerOfTwo] at hle
      show T.align.toNat ∣ (options.hugepageSize.asUsizeBytes W).toNat
      rw [hpage, T.isPowerOfTwo]
      exact Nat.pow_dvd_pow 2
        ((Nat.pow_le_pow_iff_right Nat.one_lt_two).mp hle)

theorem room_of_allocate (hW : 30 ≤ W)
    (harray : Layout.array T items = some layout) (ptr : BitVec W) :
    items.toNat * T.size.toNat ≤ (options.region layout ptr).length.toNat := by
  have hsize := (Layout.array_spec harray).right.left
  rw [Nat.mul_comm, ← hsize]
  cases options with
  | global options => exact Nat.le_refl _
  | hugepages options => exact le_allocSize hW _ harray

@[simp] theorem region_base (ptr : BitVec W) :
    (options.region layout ptr).base = ptr := by
  cases options <;> rfl

@[simp] theorem allocation_ptr (ptr : BitVec W) :
    (options.allocation layout ptr).ptr = ptr := by
  cases options <;> rfl

theorem calls_of_allocate {answers : Answers W} {os : Os W}
    {call : SysCall W}
    (h : call ∈ (after (allocate T items options answers os)).calls) :
    call ∈ os.calls ∨
      (exists layout, Layout.array T items = some layout ∧
        call = options.request layout) ∨
      (exists ptr length, call = SysCall.mlock ptr length) := by
  have houtcome := allocate_outcome T items options answers os
  generalize allocate T items options answers os = result at h houtcome
  have hrequest : forall layout, Layout.array T items = some layout ->
      call ∈ os.calls ++ [options.request layout] ->
        call ∈ os.calls ∨
          (exists layout, Layout.array T items = some layout ∧
            call = options.request layout) ∨
          (exists ptr length, call = SysCall.mlock ptr length) := by
    intro layout harray hcall
    rcases List.mem_append.mp hcall with hold | hnew
    · exact Or.inl hold
    · exact Or.inr (Or.inl ⟨layout, harray, List.mem_singleton.mp hnew⟩)
  cases houtcome with
  | overflow harray => exact Or.inl h
  | refused layout harray haddress => exact hrequest layout harray h
  | plain layout ptr harray haddress hmlock => exact hrequest layout harray h
  | locked layout ptr harray haddress hmlock hlock =>
      rcases List.mem_append.mp h with hbefore | hnew
      · exact hrequest layout harray hbefore
      · exact Or.inr (Or.inr ⟨_, _, List.mem_singleton.mp hnew⟩)
  | lockFailed layout ptr harray haddress hmlock hlock =>
      rcases List.mem_append.mp h with hbefore | hnew
      · exact hrequest layout harray hbefore
      · exact Or.inr (Or.inr ⟨_, _, List.mem_singleton.mp hnew⟩)

theorem allocation_of_allocate {answers : Answers W} {os os' : Os W}
    {a : Allocation W}
    (h : allocate T items options answers os = EStateM.Result.ok a os') :
    exists layout ptr, Layout.array T items = some layout ∧
      answers.address = some ptr ∧ a = options.allocation layout ptr ∧
      a.region ∈ os'.regions := by
  have houtcome := allocate_outcome T items options answers os
  rw [h] at houtcome
  cases houtcome with
  | plain layout ptr harray haddress hmlock =>
      exact ⟨layout, ptr, harray, haddress, rfl,
        List.mem_append_right _ List.mem_cons_self⟩
  | locked layout ptr harray haddress hmlock hlock =>
      exact ⟨layout, ptr, harray, haddress, rfl,
        List.mem_append_right _ List.mem_cons_self⟩

theorem respects_of_aligns (hW : 30 ≤ W) (hitems : 0 < items.toNat)
    (hsize : T.size ≠ 0#W) (halign : options.Aligns T) :
    Respects T items options := by
  intro answers os hpromise
  constructor
  · intro call hcall
    rcases calls_of_allocate hcall with hold |
      ⟨layout, harray, rfl⟩ | ⟨ptr, length, rfl⟩
    · exact Or.inl hold
    · exact Or.inr ((request_allowed hW hitems harray).mpr hsize)
    · exact Or.inr trivial
  · intro a os' hresult
    rcases allocation_of_allocate hresult with
      ⟨layout, ptr, harray, haddress, rfl, hregion⟩
    have hptr := hpromise layout ptr harray haddress
    constructor
    · exact hregion
    · rw [allocation_ptr]
      exact region_base ptr
    · rw [allocation_ptr]
      exact aligns_of_promised hW halign harray hptr
    · exact room_of_allocate hW harray ptr

/-!
## When they are broken
-/

/-- A request that is refused shows that the request itself is allowed. -/
theorem size_ne_zero_of_respects (hW : 30 ≤ W) (hitems : 0 < items.toNat)
    (harray : Layout.array T items = some layout)
    (h : Respects T items options) : T.size ≠ 0#W := by
  have hcalls := (h ⟨none, false, ""⟩ {}
    (fun _ _ _ haddress => by cases haddress)).left
  rw [allocate_refused harray rfl] at hcalls
  rcases hcalls (options.request layout) List.mem_cons_self with hold | hnew
  · cases hold
  · exact (request_allowed hW hitems harray).mp hnew

theorem promised_page (hW : 30 ≤ W) {pages : HugepageAllocatorOptions}
    (harray : Layout.array T items = some layout)
    (hlt : (pages.hugepageSize.asUsizeBytes W).toNat < T.align.toNat) :
    Promised (Options.hugepages pages) layout
      (pages.hugepageSize.asUsizeBytes W) := by
  have hpage := pages.hugepageSize.toNat_asUsizeBytes hW
  have hpos := Words.toNat_pos_of_two_pow hpage
  constructor
  · intro hzero
    rw [hzero, BitVec.toNat_zero] at hpos
    exact Nat.lt_irrefl 0 hpos
  · have hsize := (Layout.array_spec harray).right.right
    have hround := Words.roundUp_lt hpage
      (round_fits hW pages.hugepageSize harray)
    have hhalf := pages.hugepageSize.asUsizeBytes_le hW
    have hsplit := Words.two_pow_pred (show 0 < W by lia)
    show (pages.hugepageSize.asUsizeBytes W).toNat +
      (allocSize layout pages.hugepageSize).toNat ≤ 2 ^ W
    unfold allocSize
    lia
  · exact Nat.dvd_refl _

theorem aligns_of_respects (hW : 30 ≤ W)
    (harray : Layout.array T items = some layout)
    (h : Respects T items options) : options.Aligns T := by
  cases options with
  | global options => trivial
  | hugepages pages =>
      show T.align.toNat ≤ (pages.hugepageSize.asUsizeBytes W).toNat
      apply Nat.le_of_not_lt
      intro hlt
      have hpromise := promised_page hW harray hlt
      have hcells := (h ⟨some (pages.hugepageSize.asUsizeBytes W), true, ""⟩
        {} (by
          intro layout' ptr harray' haddress
          rw [harray] at harray'
          cases harray'
          cases haddress
          exact hpromise)).right
      have hdvd : T.align.toNat ∣
          (pages.hugepageSize.asUsizeBytes W).toNat := by
        cases hmlock : pages.mlock with
        | false =>
            exact (hcells _ _ (allocate_plain harray rfl hmlock)).aligned
        | true =>
            exact (hcells _ _ (allocate_mlock harray rfl hmlock)).aligned
      have hpos := Words.toNat_pos_of_two_pow
        (pages.hugepageSize.toNat_asUsizeBytes hW)
      exact Nat.lt_irrefl _ (Nat.lt_of_le_of_lt (Nat.le_of_dvd hpos hdvd) hlt)

theorem respects_iff (hW : 30 ≤ W) (hitems : 0 < items.toNat)
    (harray : Layout.array T items = some layout) :
    Respects T items options <-> T.size ≠ 0#W ∧ options.Aligns T := by
  constructor
  · intro h
    exact ⟨size_ne_zero_of_respects hW hitems harray h,
      aligns_of_respects hW harray h⟩
  · intro h
    exact respects_of_aligns hW hitems h.left h.right

end Met

/-!
## The two queues
-/

/-- A layout of `spmc::Slot<T>`: `seq` and `data` side by side. -/
structure SlotLayout (T : TypeLayout W) where
  layout : TypeLayout W
  seqOffset : Nat
  dataOffset : Nat
  seqFits : seqOffset + W / 8 ≤ layout.size.toNat
  dataFits : dataOffset + T.size.toNat ≤ layout.size.toNat
  apart : seqOffset + W / 8 ≤ dataOffset ∨
    dataOffset + T.size.toNat ≤ seqOffset
  dataAligned : T.align.toNat ∣ dataOffset ∧ T.align ≤ layout.align

theorem SlotLayout.size_ne_zero {T : TypeLayout W} (slot : SlotLayout T)
    (hW : 30 ≤ W) : slot.layout.size ≠ 0#W := by
  intro hzero
  have hfits := slot.seqFits
  rw [hzero, BitVec.toNat_zero] at hfits
  lia

/--
`spsc::new` respects the contracts exactly when `T` is not zero-sized and the
pages are aligned enough for it.  A slot of the broadcast queue is never
zero-sized.
-/
theorem allocators_respect_iff (hW : 30 ≤ W) (T : TypeLayout W)
    (cap : Capacity W) (options : Options) :
    ((Layout.array T cap.value).isSome = true ->
      (Respects T cap.value options <->
        T.size ≠ 0#W ∧ options.Aligns T)) ∧
    (forall slot : SlotLayout T,
      (Layout.array slot.layout cap.value).isSome = true ->
      (Respects slot.layout cap.value options <->
        options.Aligns slot.layout)) := by
  constructor
  · intro harray
    rcases Option.isSome_iff_exists.mp harray with ⟨layout, harray⟩
    exact respects_iff hW cap.size_pos harray
  · intro slot harray
    rcases Option.isSome_iff_exists.mp harray with ⟨layout, harray⟩
    rw [respects_iff hW cap.size_pos harray]
    exact Iff.intro And.right (fun halign => ⟨slot.size_ne_zero hW, halign⟩)

/-- Four items of eight bytes on pages of 2 MB. -/
theorem allocators_respect_iff_words :
    Respects (⟨⟨8#64, 8#64, 3, rfl⟩, by decide⟩ : TypeLayout 64) 4#64
      (Options.hugepages ⟨true, HugepageSize.h2MB⟩) :=
  ((allocators_respect_iff (by decide) _ ⟨4#64, 2, rfl⟩ _).left
    (by decide)).mpr ⟨by decide, by show 8 ≤ 2097152; decide⟩

def unitLayout : TypeLayout 64 :=
  ⟨⟨0#64, 1#64, 0, rfl⟩, by decide⟩

/-- The layout of a type that is aligned to 4 MB. -/
def overaligned : TypeLayout 64 :=
  ⟨⟨4194304#64, 4194304#64, 22, rfl⟩, by decide⟩

/--
A queue of `()` makes `alloc` a request for no bytes, and a page of 2 MB is
the base of a buffer that wants an alignment of 4 MB.
-/
theorem unfit_requests :
    (after (allocate unitLayout 1#64 (Options.global ⟨false⟩)
      ⟨some 1#64, true, ""⟩ {})).calls =
        [SysCall.alloc unitLayout.toLayout] ∧
    unitLayout.size = 0#64 ∧
    ¬Respects unitLayout 1#64 (Options.global ⟨false⟩) ∧
    (exists os, allocate overaligned 1#64
      (Options.hugepages ⟨false, HugepageSize.h2MB⟩)
      ⟨some 2097152#64, true, ""⟩ {} =
        EStateM.Result.ok
          (Allocation.hugepages ⟨2097152#64, 4194304#64⟩) os) ∧
    ¬overaligned.align.toNat ∣ (2097152#64).toNat ∧
    ¬Respects overaligned 1#64
      (Options.hugepages ⟨false, HugepageSize.h2MB⟩) := by
  refine ⟨rfl, rfl, ?_, ⟨_, rfl⟩, by decide, ?_⟩
  · intro h
    have harray : Layout.array unitLayout 1#64 =
        some unitLayout.toLayout := by decide
    exact size_ne_zero_of_respects (by decide) (by decide) harray h rfl
  · intro h
    have harray : Layout.array overaligned 1#64 =
        some overaligned.toLayout := by decide
    have halign := aligns_of_respects (by decide) harray h
    revert halign
    show ¬4194304 ≤ 2097152
    decide

end Mem
end LowLatency
