import LowLatency.Foundation.ByteRange
import LowLatency.Mem.Layout

/-!
# The two allocators

`GlobalAllocator` takes the slot buffer from the heap, `HugepageAllocator` maps
it.  Both lock it on request, and the value they return releases it when it is
dropped.
-/

namespace LowLatency
namespace Mem

open Foundation

variable {W : Nat}

/-!
## The operating system and the heap
-/

inductive RegionKind where
  | heap
  | mapping
deriving DecidableEq, Repr

structure Region (W : Nat) where
  kind : RegionKind
  base : BitVec W
  length : BitVec W
deriving DecidableEq, Repr

def bytesAt (ptr length : BitVec W) : ByteRange :=
  ⟨ptr.toNat, ptr.toNat + length.toNat⟩

def Region.bytes (r : Region W) : ByteRange :=
  bytesAt r.base r.length

inductive SysCall (W : Nat) where
  | alloc (layout : Layout W)
  | dealloc (ptr : BitVec W) (layout : Layout W)
  | mmap (length : BitVec W) (sizeFlag : Nat)
  | mlock (ptr length : BitVec W)
  | munmap (ptr length : BitVec W)
deriving DecidableEq, Repr

structure Os (W : Nat) where
  /-- The regions handed out and not taken back. -/
  regions : List (Region W) := []
  locked : List ByteRange := []
  obtained : List (Region W) := []
  released : List (Region W) := []
  calls : List (SysCall W) := []
  /-- The heap was given a region that it had not handed out. -/
  misused : Bool := false

namespace Os

def call (os : Os W) (c : SysCall W) : Os W :=
  { os with calls := os.calls ++ [c] }

def obtain (os : Os W) (r : Region W) : Os W :=
  { os with
    regions := os.regions ++ [r]
    obtained := os.obtained ++ [r] }

def release (os : Os W) (r : Region W) : Os W :=
  { os with
    regions := os.regions.erase r
    released := os.released ++ [r] }

def lock (os : Os W) (bytes : ByteRange) : Os W :=
  { os with locked := os.locked ++ bytes.pieces }

def unlock (os : Os W) (bytes : ByteRange) : Os W :=
  { os with locked := bytes.cutOut os.locked }

end Os

/-- What the system answers to the calls of one `allocate`. -/
structure Answers (W : Nat) where
  /-- `none` is the null pointer or `MAP_FAILED`. -/
  address : Option (BitVec W)
  lock : Bool
  lastOsError : String
deriving DecidableEq, Repr

/-!
## Panics
-/

inductive Panic (W : Nat) where
  | layoutOverflow (items size : BitVec W)
  /-- `handle_alloc_error`, which aborts. -/
  | allocError (layout : Layout W)
  | mmapFailed (lastOsError : String)
  | mlockHugepageFailed (lastOsError : String)
  | mlockGlobalFailed (lastOsError : String)
  | munmapFailed (lastOsError : String)
deriving DecidableEq, Repr

/-- What `assert_ne!` writes about its equal sides. -/
def assertNeMessage (side text : String) : String :=
  "assertion `left != right` failed: " ++ text ++ "\n  left: " ++ side ++
    "\n right: " ++ side

/-- `MAP_FAILED`, all of whose bits are set. -/
def mapFailed (W : Nat) : String :=
  "0x" ++ String.ofList (Nat.toDigits 16 (BitVec.allOnes W).toNat)

def Panic.message : Panic W -> String
  | layoutOverflow items size =>
      "Layout::array overflow: " ++ toString items.toNat ++ " x " ++
        toString size.toNat ++ " bytes exceeds isize::MAX"
  | allocError layout =>
      "memory allocation of " ++ toString layout.size.toNat ++ " bytes failed"
  | mmapFailed e =>
      assertNeMessage (mapFailed W) ("hugepage mmap failed: " ++ e)
  | mlockHugepageFailed e =>
      assertNeMessage "-1" ("mlock hugepage allocation failed: " ++ e)
  | mlockGlobalFailed e =>
      assertNeMessage "-1" ("mlock global allocation failed: " ++ e)
  | munmapFailed e =>
      assertNeMessage "-1" ("failed to munmap hugepage allocation: " ++ e)

/-- Code that calls the system and may panic; what it did so far remains. -/
abbrev OsM (W : Nat) :=
  EStateM (Panic W) (Os W)

def alloc (layout : Layout W) (address : Option (BitVec W)) :
    OsM W (Option (BitVec W)) := fun os =>
  let os := os.call (SysCall.alloc layout)
  match address with
  | none => EStateM.Result.ok none os
  | some ptr =>
      EStateM.Result.ok (some ptr)
        (os.obtain ⟨RegionKind.heap, ptr, layout.size⟩)

def mmap (length : BitVec W) (sizeFlag : Nat) (address : Option (BitVec W)) :
    OsM W (Option (BitVec W)) := fun os =>
  let os := os.call (SysCall.mmap length sizeFlag)
  match address with
  | none => EStateM.Result.ok none os
  | some ptr =>
      EStateM.Result.ok (some ptr)
        (os.obtain ⟨RegionKind.mapping, ptr, length⟩)

def mlock (ptr length : BitVec W) (answer : Bool) : OsM W Int := fun os =>
  let os := os.call (SysCall.mlock ptr length)
  if answer then EStateM.Result.ok 0 (os.lock (bytesAt ptr length))
  else EStateM.Result.ok (-1) os

def munmap (ptr length : BitVec W) : OsM W Int := fun os =>
  let os := os.call (SysCall.munmap ptr length)
  let r : Region W := ⟨RegionKind.mapping, ptr, length⟩
  if r ∈ os.regions then EStateM.Result.ok 0 ((os.release r).unlock r.bytes)
  else EStateM.Result.ok (-1) os

def dealloc (ptr : BitVec W) (layout : Layout W) : OsM W Unit := fun os =>
  let os := os.call (SysCall.dealloc ptr layout)
  let r : Region W := ⟨RegionKind.heap, ptr, layout.size⟩
  if r ∈ os.regions then EStateM.Result.ok () (os.release r)
  else EStateM.Result.ok () { os with misused := true }

def after {α : Type _} :
    EStateM.Result (Panic W) (Os W) α -> Os W
  | EStateM.Result.ok _ os => os
  | EStateM.Result.error _ os => os

/-!
## `GlobalAllocator`
-/

/-- `Layout::array`, and the panic when it overflows. -/
def arrayLayout (T : TypeLayout W) (items : BitVec W) : OsM W (Layout W) :=
  match Layout.array T items with
  | some layout => pure layout
  | none => throw (Panic.layoutOverflow items T.size)

structure GlobalAllocatorOptions where
  mlock : Bool
deriving DecidableEq, Repr

structure GlobalAllocation (W : Nat) where
  ptr : BitVec W
  layout : Layout W
deriving DecidableEq, Repr

def GlobalAllocator.allocate (T : TypeLayout W) (items : BitVec W)
    (options : GlobalAllocatorOptions) (answers : Answers W) :
    OsM W (GlobalAllocation W) := do
  let layout <- arrayLayout T items
  match <- alloc layout answers.address with
  | none => throw (Panic.allocError layout)
  | some ptr =>
      if options.mlock then
        let rc <- mlock ptr layout.size answers.lock
        if rc = -1 then
          throw (Panic.mlockGlobalFailed answers.lastOsError)
      return ⟨ptr, layout⟩

def GlobalAllocation.drop (a : GlobalAllocation W) : OsM W Unit :=
  dealloc a.ptr a.layout

/-!
## `HugepageAllocator`
-/

structure HugepageAllocatorOptions where
  mlock : Bool
  hugepageSize : HugepageSize
deriving DecidableEq, Repr

structure HugepageAllocation (W : Nat) where
  ptr : BitVec W
  length : BitVec W
deriving DecidableEq, Repr

def allocSize (layout : Layout W) (page : HugepageSize) : BitVec W :=
  Words.roundUp layout.size (page.asUsizeBytes W)

def HugepageAllocator.allocate (T : TypeLayout W) (items : BitVec W)
    (options : HugepageAllocatorOptions) (answers : Answers W) :
    OsM W (HugepageAllocation W) := do
  let layout <- arrayLayout T items
  let length := allocSize layout options.hugepageSize
  match <- mmap length options.hugepageSize.asMmapSizeFlag answers.address with
  | none => throw (Panic.mmapFailed answers.lastOsError)
  | some ptr =>
      if options.mlock then
        let rc <- mlock ptr length answers.lock
        if rc = -1 then
          throw (Panic.mlockHugepageFailed answers.lastOsError)
      return ⟨ptr, length⟩

def HugepageAllocation.drop (a : HugepageAllocation W)
    (lastOsError : String) : OsM W Unit := do
  let rc <- munmap a.ptr a.length
  if rc = -1 then
    throw (Panic.munmapFailed lastOsError)

/-!
## Either allocator

The trait `Allocator` as a choice between its two implementations.
-/

inductive Options where
  | global (options : GlobalAllocatorOptions)
  | hugepages (options : HugepageAllocatorOptions)
deriving DecidableEq, Repr

inductive Allocation (W : Nat) where
  | global (a : GlobalAllocation W)
  | hugepages (a : HugepageAllocation W)
deriving DecidableEq, Repr

def allocate (T : TypeLayout W) (items : BitVec W) (options : Options)
    (answers : Answers W) : OsM W (Allocation W) :=
  match options with
  | Options.global options =>
      Allocation.global <$>
        GlobalAllocator.allocate T items options answers
  | Options.hugepages options =>
      Allocation.hugepages <$>
        HugepageAllocator.allocate T items options answers

namespace Allocation

def ptr : Allocation W -> BitVec W
  | global a => a.ptr
  | hugepages a => a.ptr

def region : Allocation W -> Region W
  | global a => ⟨RegionKind.heap, a.ptr, a.layout.size⟩
  | hugepages a => ⟨RegionKind.mapping, a.ptr, a.length⟩

def drop (a : Allocation W) (lastOsError : String) : OsM W Unit :=
  match a with
  | global a => a.drop
  | hugepages a => a.drop lastOsError

end Allocation

namespace Options

def mlock : Options -> Bool
  | global options => options.mlock
  | hugepages options => options.mlock

def request (options : Options) (layout : Layout W) : SysCall W :=
  match options with
  | global _ => SysCall.alloc layout
  | hugepages options =>
      SysCall.mmap (allocSize layout options.hugepageSize)
        options.hugepageSize.asMmapSizeFlag

def requestPanic (options : Options) (layout : Layout W)
    (lastOsError : String) : Panic W :=
  match options with
  | global _ => Panic.allocError layout
  | hugepages _ => Panic.mmapFailed lastOsError

def mlockPanic (options : Options) (lastOsError : String) : Panic W :=
  match options with
  | global _ => Panic.mlockGlobalFailed lastOsError
  | hugepages _ => Panic.mlockHugepageFailed lastOsError

def allocation (options : Options) (layout : Layout W) (ptr : BitVec W) :
    Allocation W :=
  match options with
  | global _ => Allocation.global ⟨ptr, layout⟩
  | hugepages options =>
      Allocation.hugepages ⟨ptr, allocSize layout options.hugepageSize⟩

def region (options : Options) (layout : Layout W) (ptr : BitVec W) :
    Region W :=
  (options.allocation layout ptr).region

end Options

/-!
## What an `allocate` does

One equation for each way in which it can end.
-/

section Outcome

variable {T : TypeLayout W} {items : BitVec W} {options : Options}
variable {answers : Answers W} {os : Os W} {layout : Layout W} {ptr : BitVec W}

def Os.requested (os : Os W) (options : Options) (layout : Layout W)
    (ptr : BitVec W) : Os W :=
  (os.call (options.request layout)).obtain (options.region layout ptr)

def Os.mlockCalled (os : Os W) (options : Options) (layout : Layout W)
    (ptr : BitVec W) : Os W :=
  (os.requested options layout ptr).call
    (SysCall.mlock ptr (options.region layout ptr).length)

theorem allocate_overflow (harray : Layout.array T items = none) :
    allocate T items options answers os =
      EStateM.Result.error (Panic.layoutOverflow items T.size) os := by
  cases options with
  | global options =>
      simp only [allocate, GlobalAllocator.allocate, arrayLayout, harray]
      rfl
  | hugepages options =>
      simp only [allocate, HugepageAllocator.allocate, arrayLayout, harray]
      rfl

theorem allocate_refused (harray : Layout.array T items = some layout)
    (haddress : answers.address = none) :
    allocate T items options answers os =
      EStateM.Result.error (options.requestPanic layout answers.lastOsError)
        (os.call (options.request layout)) := by
  cases options with
  | global options =>
      simp only [allocate, GlobalAllocator.allocate, arrayLayout, harray,
        haddress]
      rfl
  | hugepages options =>
      simp only [allocate, HugepageAllocator.allocate, arrayLayout, harray,
        haddress]
      rfl

theorem allocate_plain (harray : Layout.array T items = some layout)
    (haddress : answers.address = some ptr)
    (hmlock : options.mlock = false) :
    allocate T items options answers os =
      EStateM.Result.ok (options.allocation layout ptr)
        (os.requested options layout ptr) := by
  cases options with
  | global options =>
      simp only [Options.mlock] at hmlock
      simp only [allocate, GlobalAllocator.allocate, arrayLayout, harray,
        haddress, hmlock]
      rfl
  | hugepages options =>
      simp only [Options.mlock] at hmlock
      simp only [allocate, HugepageAllocator.allocate, arrayLayout, harray,
        haddress, hmlock]
      rfl

/-- When `mlock` fails the region has been obtained and no value owns it. -/
theorem allocate_mlock (harray : Layout.array T items = some layout)
    (haddress : answers.address = some ptr)
    (hmlock : options.mlock = true) :
    allocate T items options answers os =
      if answers.lock then
        EStateM.Result.ok (options.allocation layout ptr)
          ((os.mlockCalled options layout ptr).lock
            (options.region layout ptr).bytes)
      else
        EStateM.Result.error (options.mlockPanic answers.lastOsError)
          (os.mlockCalled options layout ptr) := by
  cases options with
  | global options =>
      simp only [Options.mlock] at hmlock
      simp only [allocate, GlobalAllocator.allocate, arrayLayout, harray,
        haddress, hmlock]
      cases answers.lock with
      | true => rfl
      | false => rfl
  | hugepages options =>
      simp only [Options.mlock] at hmlock
      simp only [allocate, HugepageAllocator.allocate, arrayLayout, harray,
        haddress, hmlock]
      cases answers.lock with
      | true => rfl
      | false => rfl

inductive Outcome (T : TypeLayout W) (items : BitVec W) (options : Options)
    (answers : Answers W) (os : Os W) :
    EStateM.Result (Panic W) (Os W) (Allocation W) -> Prop where
  | overflow (harray : Layout.array T items = none) :
      Outcome T items options answers os
        (EStateM.Result.error (Panic.layoutOverflow items T.size) os)
  | refused (layout : Layout W) (harray : Layout.array T items = some layout)
      (haddress : answers.address = none) :
      Outcome T items options answers os
        (EStateM.Result.error
          (options.requestPanic layout answers.lastOsError)
          (os.call (options.request layout)))
  | plain (layout : Layout W) (ptr : BitVec W)
      (harray : Layout.array T items = some layout)
      (haddress : answers.address = some ptr)
      (hmlock : options.mlock = false) :
      Outcome T items options answers os
        (EStateM.Result.ok (options.allocation layout ptr)
          (os.requested options layout ptr))
  | locked (layout : Layout W) (ptr : BitVec W)
      (harray : Layout.array T items = some layout)
      (haddress : answers.address = some ptr)
      (hmlock : options.mlock = true) (hlock : answers.lock = true) :
      Outcome T items options answers os
        (EStateM.Result.ok (options.allocation layout ptr)
          ((os.mlockCalled options layout ptr).lock
            (options.region layout ptr).bytes))
  | lockFailed (layout : Layout W) (ptr : BitVec W)
      (harray : Layout.array T items = some layout)
      (haddress : answers.address = some ptr)
      (hmlock : options.mlock = true) (hlock : answers.lock = false) :
      Outcome T items options answers os
        (EStateM.Result.error (options.mlockPanic answers.lastOsError)
          (os.mlockCalled options layout ptr))

theorem allocate_outcome (T : TypeLayout W) (items : BitVec W)
    (options : Options) (answers : Answers W) (os : Os W) :
    Outcome T items options answers os
      (allocate T items options answers os) := by
  cases harray : Layout.array T items with
  | none =>
      rw [allocate_overflow harray]
      exact Outcome.overflow harray
  | some layout =>
      cases haddress : answers.address with
      | none =>
          rw [allocate_refused harray haddress]
          exact Outcome.refused layout harray haddress
      | some ptr =>
          cases hmlock : options.mlock with
          | false =>
              rw [allocate_plain harray haddress hmlock]
              exact Outcome.plain layout ptr harray haddress hmlock
          | true =>
              rw [allocate_mlock harray haddress hmlock]
              split
              · rename_i hlock
                exact Outcome.locked layout ptr harray haddress hmlock hlock
              · rename_i hlock
                exact Outcome.lockFailed layout ptr harray haddress hmlock
                  (Bool.eq_false_iff.mpr hlock)

end Outcome

/-!
## What a drop does
-/

section Drop

variable {a : Allocation W} {e : String} {os : Os W}

def Allocation.giveBack : Allocation W -> SysCall W
  | Allocation.global a => SysCall.dealloc a.ptr a.layout
  | Allocation.hugepages a => SysCall.munmap a.ptr a.length

/-- A heap region stays locked, a mapping is unlocked. -/
def Allocation.unlocks (a : Allocation W) (os : Os W) : Os W :=
  match a with
  | Allocation.global _ => os
  | Allocation.hugepages _ => os.unlock a.region.bytes

theorem drop_owned (h : a.region ∈ os.regions) :
    a.drop e os = EStateM.Result.ok ()
      (a.unlocks ((os.call a.giveBack).release a.region)) := by
  cases a with
  | global a =>
      exact if_pos h
  | hugepages a =>
      have hmunmap : munmap a.ptr a.length os = EStateM.Result.ok 0
          (((os.call (SysCall.munmap a.ptr a.length)).release
            (Allocation.hugepages a).region).unlock
              (Allocation.hugepages a).region.bytes) := if_pos h
      show (munmap a.ptr a.length >>= fun rc =>
        if rc = -1 then throw (Panic.munmapFailed e) else pure ()) os = _
      simp only [bind, EStateM.bind, hmunmap]
      rfl

def Allocation.unfound (a : Allocation W) (e : String) (os : Os W) :
    EStateM.Result (Panic W) (Os W) Unit :=
  match a with
  | Allocation.global _ =>
      EStateM.Result.ok () { os.call a.giveBack with misused := true }
  | Allocation.hugepages _ =>
      EStateM.Result.error (Panic.munmapFailed e) (os.call a.giveBack)

theorem drop_unowned (h : a.region ∉ os.regions) :
    a.drop e os = a.unfound e os := by
  cases a with
  | global a =>
      exact if_neg h
  | hugepages a =>
      have hmunmap : munmap a.ptr a.length os = EStateM.Result.ok (-1)
          (os.call (SysCall.munmap a.ptr a.length)) := if_neg h
      show (munmap a.ptr a.length >>= fun rc =>
        if rc = -1 then throw (Panic.munmapFailed e) else pure ()) os = _
      simp only [bind, EStateM.bind, hmunmap]
      rfl

theorem calls_of_drop (a : Allocation W) (e : String) (os : Os W) :
    (after (a.drop e os)).calls = os.calls ++ [a.giveBack] := by
  by_cases howned : a.region ∈ os.regions
  · rw [drop_owned howned]
    cases a <;> rfl
  · rw [drop_unowned howned]
    cases a <;> rfl

theorem regions_of_drop (a : Allocation W) (e : String) (os : Os W) :
    (after (a.drop e os)).regions.Sublist os.regions := by
  by_cases howned : a.region ∈ os.regions
  · rw [drop_owned howned]
    cases a <;> exact List.erase_sublist
  · rw [drop_unowned howned]
    cases a <;> exact List.Sublist.refl _

end Drop

end Mem
end LowLatency
