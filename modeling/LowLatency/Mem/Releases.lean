import LowLatency.Foundation.Machine
import LowLatency.Mem.Allocators

/-!
# What is obtained is given back

A program allocates and drops allocations in any order and catches panics.
The system may refuse any request; a region that it hands out overlaps none of
the regions that it has handed out and not taken back.
-/

namespace LowLatency
namespace Mem

open Foundation

variable {W : Nat}

/-- An allocation that has not been dropped, and whether it was locked. -/
structure Live (W : Nat) where
  allocation : Allocation W
  mlock : Bool
deriving DecidableEq, Repr

namespace Live

def region (l : Live W) : Region W :=
  l.allocation.region

/-- The bytes that the allocation is meant to keep locked. -/
def lockedBytes (l : Live W) : List ByteRange :=
  if l.mlock then l.region.bytes.pieces else []

end Live

structure World (W : Nat) where
  os : Os W
  live : List (Live W)
  panics : List (Panic W)

inductive Action (W : Nat) where
  | allocate (T : TypeLayout W) (items : BitVec W) (options : Options)
      (answers : Answers W)
  | drop (i : Nat) (lastOsError : String)

def Os.Disjoint (os : Os W) : Prop :=
  os.regions.Pairwise (fun r r' => r.bytes.Disjoint r'.bytes)

instance (os : Os W) : Decidable os.Disjoint :=
  inferInstanceAs (Decidable
    (os.regions.Pairwise (fun r r' => r.bytes.Disjoint r'.bytes)))

namespace World

/-- The region that the system answers with must be a fresh one. -/
def allocate (w : World W) (T : TypeLayout W) (items : BitVec W)
    (options : Options) (answers : Answers W) : Option (World W) :=
  match Mem.allocate T items options answers w.os with
  | EStateM.Result.ok a os =>
      if os.Disjoint then
        some { w with os := os, live := w.live ++ [⟨a, options.mlock⟩] }
      else none
  | EStateM.Result.error panic os =>
      if os.Disjoint then
        some { w with os := os, panics := w.panics ++ [panic] }
      else none

def drop (w : World W) (i : Nat) (lastOsError : String) : Option (World W) :=
  match w.live[i]? with
  | none => none
  | some l =>
      match l.allocation.drop lastOsError w.os with
      | EStateM.Result.ok _ os =>
          some { w with os := os, live := w.live.eraseIdx i }
      | EStateM.Result.error panic os =>
          some {
            os := os
            live := w.live.eraseIdx i
            panics := w.panics ++ [panic] }

def step (w : World W) : Action W -> Option (World W)
  | Action.allocate T items options answers =>
      w.allocate T items options answers
  | Action.drop i lastOsError => w.drop i lastOsError

end World

def machine (W : Nat) : Machine (World W) (Action W) where
  start := ⟨{}, [], []⟩
  step := World.step

theorem World.allocate_inv {w w' : World W} {T : TypeLayout W}
    {items : BitVec W} {options : Options} {answers : Answers W}
    (h : w.allocate T items options answers = some w') :
    w'.os.Disjoint ∧
      ((exists a,
        Mem.allocate T items options answers w.os =
          EStateM.Result.ok a w'.os ∧
        w' = ⟨w'.os, w.live ++ [⟨a, options.mlock⟩], w.panics⟩) ∨
      (exists panic,
        Mem.allocate T items options answers w.os =
          EStateM.Result.error panic w'.os ∧
        w' = ⟨w'.os, w.live, w.panics ++ [panic]⟩)) := by
  unfold World.allocate at h
  cases hresult : Mem.allocate T items options answers w.os with
  | ok a os =>
      simp only [hresult] at h
      split at h
      · rename_i hdisjoint
        cases h
        exact ⟨hdisjoint, Or.inl ⟨a, rfl, rfl⟩⟩
      · cases h
  | error panic os =>
      simp only [hresult] at h
      split at h
      · rename_i hdisjoint
        cases h
        exact ⟨hdisjoint, Or.inr ⟨panic, rfl, rfl⟩⟩
      · cases h

theorem World.drop_inv {w w' : World W} {i : Nat} {e : String}
    (h : w.drop i e = some w') :
    exists l panics, w.live[i]? = some l ∧
      w' = ⟨after (l.allocation.drop e w.os), w.live.eraseIdx i, panics⟩ := by
  unfold World.drop at h
  cases hl : w.live[i]? with
  | none =>
      rw [hl] at h
      cases h
  | some l =>
      simp only [hl] at h
      cases hresult : l.allocation.drop e w.os with
      | ok _ os =>
          rw [hresult] at h
          cases h
          exact ⟨l, _, rfl, by rw [hresult]; rfl⟩
      | error panic os =>
          rw [hresult] at h
          cases h
          exact ⟨l, _, rfl, by rw [hresult]; rfl⟩

/-!
## Balance
-/

structure Balanced (w : World W) : Prop where
  regions : w.os.regions.Perm (w.live.map Live.region)
  released : w.os.obtained.Perm (w.os.released ++ w.live.map Live.region)
  locked : w.os.locked.Perm (w.live.flatMap Live.lockedBytes)
  proper : w.os.misused = false

/-- An obtained region is locked for certain, or not meant to be. -/
def World.keepsBalance (w : World W) : Action W -> Bool
  | Action.allocate T items options answers =>
      !((Layout.array T items).isSome && answers.address.isSome &&
        options.mlock && !answers.lock)
  | Action.drop i _ =>
      match w.live[i]? with
      | some ⟨Allocation.global a, true⟩ => a.layout.size == 0#W
      | _ => true

namespace Balanced

variable {w w' : World W}

theorem start (W : Nat) : Balanced (machine W).start where
  regions := List.Perm.refl _
  released := List.Perm.refl _
  locked := List.Perm.refl _
  proper := rfl

theorem obtain (hb : Balanced w) {l : Live W} {os : Os W}
    (hregions : os.regions = w.os.regions ++ [l.region])
    (hobtained : os.obtained = w.os.obtained ++ [l.region])
    (hreleased : os.released = w.os.released)
    (hlocked : os.locked = w.os.locked ++ l.lockedBytes)
    (hmisused : os.misused = w.os.misused) {panics : List (Panic W)} :
    Balanced ⟨os, w.live ++ [l], panics⟩ := by
  constructor
  · rw [hregions, List.map_append]
    exact hb.regions.append_right _
  · rw [hobtained, hreleased, List.map_append, ← List.append_assoc]
    exact hb.released.append_right _
  · rw [hlocked, List.flatMap_append]
    apply hb.locked.append
    simp
  · rw [hmisused]
    exact hb.proper

theorem of_calls (hb : Balanced w) {os : Os W}
    (hregions : os.regions = w.os.regions)
    (hobtained : os.obtained = w.os.obtained)
    (hreleased : os.released = w.os.released)
    (hlocked : os.locked = w.os.locked)
    (hmisused : os.misused = w.os.misused) {panics : List (Panic W)} :
    Balanced ⟨os, w.live, panics⟩ := by
  constructor
  · rw [hregions]
    exact hb.regions
  · rw [hobtained, hreleased]
    exact hb.released
  · rw [hlocked]
    exact hb.locked
  · rw [hmisused]
    exact hb.proper

theorem not_of_orphan (hb : Balanced w) {os : Os W} {r : Region W}
    (hregions : os.regions = w.os.regions ++ [r])
    {panics : List (Panic W)} : ¬Balanced ⟨os, w.live, panics⟩ := by
  intro hb'
  have hbefore := hb.regions.length_eq
  have hafter := hb'.regions.length_eq
  dsimp only at hafter
  rw [hregions, List.length_append, List.length_singleton] at hafter
  lia

theorem allocate_iff (hb : Balanced w) {T : TypeLayout W} {items : BitVec W}
    {options : Options} {answers : Answers W}
    (h : w.allocate T items options answers = some w') :
    Balanced w' <->
      w.keepsBalance (Action.allocate T items options answers) = true := by
  have houtcome := allocate_outcome T items options answers w.os
  rcases World.allocate_inv h with
    ⟨_, ⟨a, hresult, hw'⟩ | ⟨panic, hresult, hw'⟩⟩
  · rw [hresult] at houtcome
    rw [hw']
    generalize w'.os = os at houtcome
    cases houtcome with
    | plain layout ptr harray haddress hmlock =>
        constructor
        · intro _
          simp [World.keepsBalance, hmlock]
        · intro _
          refine hb.obtain ?_ ?_ ?_ ?_ ?_
          · rfl
          · rfl
          · rfl
          · rw [Live.lockedBytes, hmlock]
            exact (List.append_nil _).symm
          · rfl
    | locked layout ptr harray haddress hmlock hlock =>
        constructor
        · intro _
          simp [World.keepsBalance, hlock]
        · intro _
          refine hb.obtain ?_ ?_ ?_ ?_ ?_
          · rfl
          · rfl
          · rfl
          · rw [Live.lockedBytes, hmlock]
            rfl
          · rfl
  · rw [hresult] at houtcome
    rw [hw']
    generalize w'.os = os at houtcome
    cases houtcome with
    | overflow harray =>
        constructor
        · intro _
          simp [World.keepsBalance, harray]
        · intro _
          refine hb.of_calls ?_ ?_ ?_ ?_ ?_ <;> rfl
    | refused layout harray haddress =>
        constructor
        · intro _
          simp [World.keepsBalance, haddress]
        · intro _
          refine hb.of_calls ?_ ?_ ?_ ?_ ?_ <;> rfl
    | lockFailed layout ptr harray haddress hmlock hlock =>
        constructor
        · intro hb'
          exact absurd hb' (hb.not_of_orphan rfl)
        · intro hkeeps
          simp [World.keepsBalance, harray, haddress, hmlock, hlock] at hkeeps

/-!
### Drops
-/

section Drop

variable {i : Nat} {l : Live W} {e : String}

theorem live_perm (hl : w.live[i]? = some l) :
    w.live.Perm (l :: w.live.eraseIdx i) := by
  rcases List.getElem?_eq_some_iff.mp hl with ⟨hi, rfl⟩
  exact (List.getElem_cons_eraseIdx_perm hi).symm

theorem owned (hb : Balanced w) (hl : w.live[i]? = some l) :
    l.region ∈ w.os.regions := by
  apply hb.regions.mem_iff.mpr
  exact List.mem_map_of_mem (List.mem_of_getElem? hl)

theorem release (hb : Balanced w) (hl : w.live[i]? = some l) {os : Os W}
    (hregions : os.regions = w.os.regions.erase l.region)
    (hobtained : os.obtained = w.os.obtained)
    (hreleased : os.released = w.os.released ++ [l.region])
    (hmisused : os.misused = w.os.misused) {panics : List (Panic W)} :
    Balanced ⟨os, w.live.eraseIdx i, panics⟩ <->
      os.locked.Perm ((w.live.eraseIdx i).flatMap Live.lockedBytes) := by
  have hperm := live_perm hl
  have hmap := hperm.map Live.region
  constructor
  · intro hb'
    exact hb'.locked
  · intro hlocked
    constructor
    · have herase := (hb.regions.trans hmap).erase l.region
      rw [List.map_cons, List.erase_cons_head] at herase
      rw [hregions]
      exact herase
    · rw [hobtained, hreleased, List.append_assoc]
      exact hb.released.trans (hmap.append_left _)
    · exact hlocked
    · rw [hmisused]
      exact hb.proper

theorem locked_split (hb : Balanced w) (hl : w.live[i]? = some l) :
    w.os.locked.Perm
      (l.lockedBytes ++ (w.live.eraseIdx i).flatMap Live.lockedBytes) :=
  hb.locked.trans ((live_perm hl).flatMap_right _)

theorem disjoint_others (hb : Balanced w) (hd : w.os.Disjoint)
    (hl : w.live[i]? = some l) :
    forall l', l' ∈ w.live.eraseIdx i ->
      l'.region.bytes.Disjoint l.region.bytes := by
  have hpairwise : ((l :: w.live.eraseIdx i).map Live.region).Pairwise
      (fun r r' => r.bytes.Disjoint r'.bytes) :=
    ((hb.regions.trans ((live_perm hl).map _)).pairwise_iff
      ByteRange.Disjoint.symm).mp hd
  rw [List.map_cons, List.pairwise_cons] at hpairwise
  intro l' hl'
  exact (hpairwise.left _ (List.mem_map_of_mem hl')).symm

theorem cutOut_own (l : Live W) :
    l.region.bytes.cutOut l.lockedBytes = [] := by
  unfold Live.lockedBytes
  split
  · exact ByteRange.cutOut_pieces_self _
  · rfl

theorem cutOut_other {l l' : Live W}
    (h : l'.region.bytes.Disjoint l.region.bytes) :
    l.region.bytes.cutOut l'.lockedBytes = l'.lockedBytes := by
  unfold Live.lockedBytes
  split
  · exact ByteRange.cutOut_pieces_of_disjoint h
  · rfl

theorem cutOut_flatMap {l : Live W} (ls : List (Live W))
    (h : forall l', l' ∈ ls -> l'.region.bytes.Disjoint l.region.bytes) :
    l.region.bytes.cutOut (ls.flatMap Live.lockedBytes) =
      ls.flatMap Live.lockedBytes := by
  induction ls with
  | nil => rfl
  | cons l' rest ih =>
      have hrest := ih (fun l' hl' => h l' (List.mem_cons_of_mem _ hl'))
      rw [List.flatMap_cons, ByteRange.cutOut_append,
        cutOut_other (h l' List.mem_cons_self), hrest]

theorem cutOut_others (hb : Balanced w) (hd : w.os.Disjoint)
    (hl : w.live[i]? = some l) :
    (l.region.bytes.cutOut w.os.locked).Perm
      ((w.live.eraseIdx i).flatMap Live.lockedBytes) := by
  have hperm := ByteRange.cutOut_perm l.region.bytes (locked_split hb hl)
  rw [ByteRange.cutOut_append, cutOut_own, List.nil_append,
    cutOut_flatMap _ (disjoint_others hb hd hl)] at hperm
  exact hperm

/-- Without an unlock, only a drop of no locked bytes keeps the balance. -/
theorem locked_iff (hb : Balanced w) (hl : w.live[i]? = some l) :
    w.os.locked.Perm ((w.live.eraseIdx i).flatMap Live.lockedBytes) <->
      l.lockedBytes = [] := by
  have hsplit := locked_split hb hl
  constructor
  · intro hperm
    have hlength := hperm.length_eq
    rw [hsplit.length_eq, List.length_append] at hlength
    exact List.eq_nil_of_length_eq_zero (by lia)
  · intro hnone
    rw [hnone] at hsplit
    exact hsplit

theorem pieces_of_heap (ptr length : BitVec W) :
    (bytesAt ptr length).pieces = [] <-> length = 0#W := by
  rw [ByteRange.pieces_eq_nil, ← BitVec.toNat_inj, BitVec.toNat_zero]
  unfold bytesAt
  dsimp only
  constructor
  · intro hle
    lia
  · intro hzero
    lia

theorem drop_iff (hb : Balanced w) (hd : w.os.Disjoint)
    (h : w.drop i e = some w') :
    Balanced w' <-> w.keepsBalance (Action.drop i e) = true := by
  rcases World.drop_inv h with ⟨l, panics, hl, rfl⟩
  rw [drop_owned (owned hb hl)]
  cases l with
  | mk a mlock =>
      cases a with
      | hugepages a =>
          refine Iff.trans (release hb hl ?_ ?_ ?_ ?_) ?_
          · rfl
          · rfl
          · rfl
          · rfl
          · constructor
            · intro _
              simp [World.keepsBalance, hl]
            · intro _
              exact cutOut_others hb hd hl
      | global a =>
          refine Iff.trans (release hb hl ?_ ?_ ?_ ?_) ?_
          · rfl
          · rfl
          · rfl
          · rfl
          · apply (locked_iff hb hl).trans
            cases mlock with
            | false =>
                constructor
                · intro _
                  simp [World.keepsBalance, hl]
                · intro _
                  rfl
            | true =>
                apply (pieces_of_heap a.ptr a.layout.size).trans
                simp [World.keepsBalance, hl]

end Drop

end Balanced

/-!
## Whole runs
-/

variable {w w' : World W}

theorem World.drop_regions {i : Nat} {e : String}
    (h : w.drop i e = some w') : w'.os.regions.Sublist w.os.regions := by
  rcases World.drop_inv h with ⟨l, _, _, rfl⟩
  exact regions_of_drop l.allocation e w.os

theorem Os.Disjoint.step (hd : w.os.Disjoint) {a : Action W}
    (h : w.step a = some w') : w'.os.Disjoint := by
  cases a with
  | allocate T items options answers =>
      exact (World.allocate_inv h).left
  | drop i e =>
      exact hd.sublist (World.drop_regions h)

theorem Balanced.step_iff (hb : Balanced w) (hd : w.os.Disjoint)
    {a : Action W} (h : w.step a = some w') :
    Balanced w' <-> w.keepsBalance a = true := by
  cases a with
  | allocate T items options answers => exact hb.allocate_iff h
  | drop i e => exact hb.drop_iff hd h

/--
A run stays balanced exactly when no `mlock` fails on a region that has just
been obtained, and no heap allocation that was locked is dropped, unless it
has no bytes.
-/
theorem balanced_iff {actions : List (Action W)}
    (hrun : (machine W).run actions = some w) :
    (forall first mid, first <+: actions ->
      (machine W).run first = some mid -> Balanced mid) <->
    ((machine W).restrict World.keepsBalance).run actions = some w :=
  Machine.always_iff_runFrom_restrict (I := fun w => w.os.Disjoint)
    (fun _ _ _ hd h => hd.step h) (fun _ _ _ hd hb h => hb.step_iff hd h)
    List.Pairwise.nil (Balanced.start W) hrun

/-- A heap allocation and a locked mapping, dropped in the other order. -/
theorem balanced_iff_two :
    exists w, (machine 64).run
        [Action.allocate ⟨⟨8#64, 8#64, 3, rfl⟩, by decide⟩ 4#64
            (Options.global ⟨false⟩) ⟨some 64#64, true, ""⟩,
          Action.allocate ⟨⟨8#64, 8#64, 3, rfl⟩, by decide⟩ 4#64
            (Options.hugepages ⟨true, HugepageSize.h64KB⟩)
            ⟨some 65536#64, true, ""⟩,
          Action.drop 1 "", Action.drop 0 ""] = some w ∧ Balanced w := by
  apply Machine.exists_run_of_map (fun _ => ()) () (by decide +kernel)
  intro w hrun _
  apply (balanced_iff hrun).mpr
  · rw [← hrun]
    rfl
  · exact List.prefix_refl _
  · exact hrun

/--
An `mlock` that fails leaves its region behind, and the drop of a locked heap
allocation leaves its bytes locked.
-/
theorem left_behind :
    (exists w, (machine 64).run
        [Action.allocate ⟨⟨8#64, 8#64, 3, rfl⟩, by decide⟩ 4#64
          (Options.hugepages ⟨true, HugepageSize.h64KB⟩)
          ⟨some 65536#64, false, "Cannot allocate memory"⟩] = some w ∧
      w.live = [] ∧
      w.os.regions = [⟨RegionKind.mapping, 65536#64, 65536#64⟩] ∧
      w.panics = [Panic.mlockHugepageFailed "Cannot allocate memory"] ∧
      ¬Balanced w) ∧
    (exists w, (machine 64).run
        [Action.allocate ⟨⟨8#64, 8#64, 3, rfl⟩, by decide⟩ 4#64
          (Options.global ⟨true⟩) ⟨some 64#64, true, ""⟩,
        Action.drop 0 ""] = some w ∧
      w.live = [] ∧ w.os.regions = [] ∧ w.os.locked = [⟨64, 96⟩] ∧
      ¬Balanced w) := by
  constructor
  · refine ⟨_, rfl, rfl, rfl, rfl, ?_⟩
    intro hb
    have hlength := hb.regions.length_eq
    cases hlength
  · refine ⟨_, rfl, rfl, rfl, rfl, ?_⟩
    intro hb
    have hlength := hb.locked.length_eq
    cases hlength

end Mem
end LowLatency
