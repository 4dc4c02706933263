import LowLatency.Foundation.Words
import LowLatency.Seqlock.ViewSystem

/-!
# The stores and the views that they carry

An even store of `seq` carries all words of its version.  A store of a word
carries, through the release fence, the odd store of its write.
-/

namespace LowLatency
namespace Seqlock

open Foundation

variable {m : Nat} {Word : Type}

/-!
## What the stores are
-/

def StoreOk (versions : List (Payload m Word)) :
    (loc : Location m) -> Nat ->
      Message (Location m) (Location.Val Word loc) -> Prop
  | Location.seq, t, msg =>
      msg.value = BitVec.ofNat 64 t ∧
        forall u, t = 2 * u -> forall w, u ≤ msg.view (Location.word w)
  | Location.word w, u, msg =>
      (exists value, versions[u]? = some value ∧ msg.value = value w) ∧
        2 * u ≤ msg.view Location.seq + 1

theorem StoreOk.mono {versions versions' : List (Payload m Word)}
    (hversions : forall (u : Nat) (v : Payload m Word),
      versions[u]? = some v -> versions'[u]? = some v)
    (loc : Location m) (t : Nat)
    (msg : Message (Location m) (Location.Val Word loc))
    (h : StoreOk versions loc t msg) : StoreOk versions' loc t msg := by
  cases loc with
  | seq => exact h
  | word w =>
      rcases h with ⟨⟨value, hget, hvalue⟩, hview⟩
      exact ⟨⟨value, hversions t value hget, hvalue⟩, hview⟩

def WritePc.wordStores (w : Fin m) : WritePc m Word -> Nat
  | writeData _ _ written => if written w then 1 else 0
  | _ => 0

def newest (completed : Nat) (pc : WritePc m Word) : Location m -> Nat
  | Location.seq => 2 * completed + pc.opened
  | Location.word w => completed + pc.wordStores w

namespace ViewSystem

variable {Id : Type _} {s s' : ViewSystem Id m Word}

structure Stores (s : ViewSystem Id m Word) : Prop where
  each : s.memory.Each (StoreOk s.versions)
  count : forall loc,
    (s.memory loc).lastIndex = newest s.completed s.writePc loc
  upToDate : s.memory.UpToDate s.writer
  released : forall s₀ value written,
    s.writePc = WritePc.writeData s₀ value written ->
      2 * s.completed + 1 ≤ s.writer.released Location.seq
  call : forall s₀ value, s.writePc.call? = some (s₀, value) ->
    s₀ = BitVec.ofNat 64 (2 * s.completed) ∧
      s.versions[s.completed + 1]? = some value
  length : s.versions.length = s.completed + s.writePc.begun + 1

namespace Stores

theorem new (Id : Type _) (initialValue : Payload m Word) :
    Stores (ViewSystem.new Id initialValue) where
  each := by
    apply ViewMemory.each_init
    intro loc
    cases loc with
    | seq =>
        exists rfl
        intro u hu w
        have hzero : u = 0 := by lia
        rw [hzero]
        exact Nat.zero_le _
    | word w => exact ⟨⟨initialValue, rfl, rfl⟩, Nat.zero_le _⟩
  count loc := by cases loc <;> rfl
  upToDate := ViewMemory.upToDate_init _
  released _ _ _ h := by cases h
  call _ _ h := by cases h
  length := rfl

theorem newest_append (hs : Stores s) {loc : Location m}
    {msg : Message (Location m) (Location.Val Word loc)}
    {completed : Nat} {pc : WritePc m Word}
    (hself : newest completed pc loc = newest s.completed s.writePc loc + 1)
    (hother : forall other, other ≠ loc ->
      newest completed pc other = newest s.completed s.writePc other)
    (other : Location m) :
    (s.memory.append loc msg other).lastIndex = newest completed pc other := by
  rcases eq_or_ne other loc with rfl | hne
  · rw [ViewMemory.lastIndex_append_self, hself, ← hs.count other]
    rfl
  · rw [ViewMemory.lastIndex_append_of_ne _ _ hne, hother other hne]
    exact hs.count other

theorem writeCall (hs : Stores s) {value : Payload m Word} {k : Nat}
    (h : s.writeCall value k = some s') : Stores s' := by
  rcases writeCall_inv h with ⟨msg, hpc, hload, rfl⟩
  have hk : k = 2 * s.completed := by
    rw [hs.upToDate.load hload, hs.count, hpc]
    rfl
  have hvalue := (hs.each.load hload).right.right.left
  have hlength : s.versions.length = s.completed + 1 := by
    rw [hs.length, hpc]
    rfl
  refine ⟨?_, ?_, hs.upToDate.loadRelaxed _ _ _, ?_, ?_, ?_⟩
  · refine hs.each.mono (StoreOk.mono ?_)
    intro u v hget
    exact getElem?_append_of_eq_some hget _
  · intro loc
    rw [hs.count loc, hpc]
    cases loc <;> rfl
  · intro _ _ _ hwrite
    cases hwrite
  · intro s₀ v hcall
    cases hcall
    constructor
    · rw [hvalue, hk]
    · change (s.versions ++ [value])[s.completed + 1]? = some value
      rw [← hlength, List.getElem?_concat_length]
  · change (s.versions ++ [value]).length = s.completed + 1 + 1
    rw [List.length_append, hlength]
    rfl

theorem writeStoreOdd (hs : Stores s) (h : s.writeStoreOdd = some s') :
    Stores s' := by
  rcases writeStoreOdd_inv h with ⟨s₀, value, hpc, rfl⟩
  rcases hs.call s₀ value (by rw [hpc]; rfl) with ⟨rfl, hget⟩
  have hcount : (s.memory Location.seq).lastIndex = 2 * s.completed := by
    rw [hs.count, hpc]
    rfl
  refine ⟨?_, ?_, hs.upToDate.append _ _, ?_, ?_, ?_⟩
  · refine hs.each.append ⟨?_, ?_⟩
    · rw [ViewMemory.next, hcount]
      exact BitVec.ofNat_add_ofNat _ 1
    · intro u hu
      rw [ViewMemory.next, hcount] at hu
      lia
  · apply hs.newest_append
    · rw [hpc]
      rfl
    · intro other hne
      rw [hpc]
      cases other with
      | seq => exact absurd rfl hne
      | word w => rfl
  · intro _ _ _ hwrite
    cases hwrite
  · intro s₁ v hcall
    cases hcall
    exact ⟨rfl, hget⟩
  · rw [hs.length, hpc]
    rfl

theorem writeFence (hs : Stores s) (h : s.writeFence = some s') :
    Stores s' := by
  rcases writeFence_inv h with ⟨s₀, value, hpc, rfl⟩
  refine ⟨hs.each, ?_, hs.upToDate, ?_, ?_, ?_⟩
  · intro loc
    rw [hs.count loc, hpc]
    cases loc <;> rfl
  · intro _ _ _ _
    have hseq := hs.upToDate Location.seq
    rw [hs.count, hpc] at hseq
    exact hseq
  · intro s₁ v hcall
    cases hcall
    exact hs.call s₀ value (by rw [hpc]; rfl)
  · rw [hs.length, hpc]
    rfl

theorem writeWord (hs : Stores s) {w : Fin m} (h : s.writeWord w = some s') :
    Stores s' := by
  rcases writeWord_inv h with ⟨s₀, value, written, hpc, hwritten, rfl⟩
  rcases hs.call s₀ value (by rw [hpc]; rfl) with ⟨_, hget⟩
  have hreleased := hs.released s₀ value written hpc
  have hcount : (s.memory (Location.word w)).lastIndex = s.completed := by
    rw [hs.count, hpc]
    simp [newest, WritePc.wordStores, hwritten]
  refine ⟨?_, ?_, hs.upToDate.append _ _, ?_, ?_, ?_⟩
  · refine hs.each.append ⟨⟨value, ?_, rfl⟩, ?_⟩
    · rw [ViewMemory.next, hcount]
      exact hget
    · rw [ViewMemory.next, hcount]
      have hview : s.writer.released Location.seq ≤
          (s.writer.released ⊔ View.single (Location.word w)
            (s.completed + 1)) Location.seq := Nat.le_max_left _ _
      lia
  · apply hs.newest_append
    · rw [hpc]
      simp [newest, WritePc.wordStores, hwritten]
    · intro other hne
      rw [hpc]
      cases other with
      | seq => rfl
      | word v =>
          have hvw : v ≠ w := fun heq => hne (congrArg Location.word heq)
          simp [newest, WritePc.wordStores, Function.update_of_ne hvw]
  · intro _ _ _ _
    exact hreleased
  · intro s₁ v hcall
    cases hcall
    exact hs.call s₀ value (by rw [hpc]; rfl)
  · rw [hs.length, hpc]
    rfl

theorem writeStoreEven (hs : Stores s) (h : s.writeStoreEven = some s') :
    Stores s' := by
  rcases writeStoreEven_inv h with ⟨s₀, value, written, hpc, hall, rfl⟩
  rcases hs.call s₀ value (by rw [hpc]; rfl) with ⟨rfl, _⟩
  have hcount : (s.memory Location.seq).lastIndex = 2 * s.completed + 1 := by
    rw [hs.count, hpc]
    rfl
  have hwords : forall w,
      newest s.completed s.writePc (Location.word w) = s.completed + 1 := by
    intro w
    rw [hpc]
    simp [newest, WritePc.wordStores, hall w]
  refine ⟨?_, ?_, hs.upToDate.append _ _, ?_, ?_, ?_⟩
  · refine hs.each.append ⟨?_, ?_⟩
    · rw [ViewMemory.next, hcount]
      exact BitVec.ofNat_add_ofNat _ 2
    · intro u hu w
      rw [ViewMemory.next, hcount] at hu
      have hseen := hs.upToDate (Location.word w)
      rw [hs.count, hwords] at hseen
      have hview : s.writer.current (Location.word w) ≤
          (s.writer.current ⊔ View.single Location.seq
            (s.memory.next Location.seq)) (Location.word w) :=
        Nat.le_max_left _ _
      refine Nat.le_trans ?_ hview
      lia
  · apply hs.newest_append
    · rw [hpc]
      simp only [newest, WritePc.opened]
      lia
    · intro other hne
      cases other with
      | seq => exact absurd rfl hne
      | word w => exact (hwords w).symm
  · intro _ _ _ hwrite
    cases hwrite
  · intro _ _ hcall
    cases hcall
  · rw [hs.length, hpc]
    rfl

variable [DecidableEq Id]

theorem read (hs : Stores s) {i : Id} {a : ViewReadAction m}
    (h : s.read i a = some s') : Stores s' := by
  rcases read_eq h with ⟨_, _, rfl⟩
  exact ⟨hs.each, hs.count, hs.upToDate, hs.released, hs.call, hs.length⟩

theorem step (hs : Stores s) {a : ViewAction Id m Word}
    (h : s.step a = some s') : Stores s' := by
  cases a with
  | writeCall value k => exact hs.writeCall h
  | writeStoreOdd => exact hs.writeStoreOdd h
  | writeFence => exact hs.writeFence h
  | writeWord w => exact hs.writeWord h
  | writeStoreEven => exact hs.writeStoreEven h
  | read i a => exact hs.read h

theorem reachable {initialValue : Payload m Word}
    (hs : (viewMachine Id initialValue).Reachable s) : Stores s :=
  hs.invariant (Stores.new Id initialValue) (fun _ _ _ hs h => hs.step h)

end Stores
end ViewSystem
end Seqlock
end LowLatency
