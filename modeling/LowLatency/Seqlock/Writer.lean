import LowLatency.Foundation.Words
import LowLatency.Seqlock.System

/-!
# The lock at every step of the writer

The parity of `seq` tells whether a write is between its odd and its even
store.  Outside of that stretch the payload is the latest completed version.
-/

namespace LowLatency
namespace Seqlock

open Foundation
open Foundation.Linearizability

namespace System

variable {Id : Type _} {m : Nat} {Word : Type _}
variable {s s' : System Id m Word}

structure WriterOk (s : System Id m Word) : Prop where
  length : s.versions.length = s.begun + 1
  closed : s.writePc.opened = 0 ->
    s.lock.seq = BitVec.ofNat 64 (2 * s.completed)
  data : s.writePc.opened = 0 ->
    s.versions[s.completed]? = some s.lock.data
  opened : s.writePc.opened = 1 ->
    s.lock.seq = BitVec.ofNat 64 (2 * s.completed + 1)
  call : forall s₀ value, s.writePc.call? = some (s₀, value) ->
    s₀ = BitVec.ofNat 64 (2 * s.completed) ∧
      s.versions[s.completed + 1]? = some value
  written : forall s₀ value written,
    s.writePc = WritePc.writeData s₀ value written -> forall i,
      written i = true -> s.lock.data i = value i

namespace WriterOk

theorem new (Id : Type _) (initialValue : Payload m Word) :
    WriterOk (System.new Id initialValue) where
  length := rfl
  closed _ := rfl
  data _ := rfl
  opened h := by cases h
  call _ _ h := by cases h
  written _ _ _ h := by cases h

theorem writeCall (hs : WriterOk s) {value : Payload m Word}
    (h : s.writeCall value = some s') : WriterOk s' := by
  rcases writeCall_inv h with ⟨hpc, rfl⟩
  have hclosed : s.writePc.opened = 0 := by
    rw [hpc]
    rfl
  have hlength : s.versions.length = s.completed + 1 := by
    rw [hs.length, begun, hpc]
    rfl
  refine ⟨?_, fun _ => hs.closed hclosed, ?_, ?_, ?_, ?_⟩
  · change (s.versions ++ [value]).length = s.completed + 1 + 1
    rw [List.length_append, hlength]
    rfl
  · intro _
    change (s.versions ++ [value])[s.completed]? = some s.lock.data
    rw [List.getElem?_append_left (by lia)]
    exact hs.data hclosed
  · intro hopened
    cases hopened
  · intro s₀ v hcall
    cases hcall
    exists hs.closed hclosed
    change (s.versions ++ [value])[s.completed + 1]? = some value
    rw [← hlength, List.getElem?_concat_length]
  · intro _ _ _ hwrite
    cases hwrite

theorem writeStoreOdd (hs : WriterOk s) (h : s.writeStoreOdd = some s') :
    WriterOk s' := by
  rcases writeStoreOdd_inv h with ⟨s₀, value, hpc, rfl⟩
  rcases hs.call s₀ value (by rw [hpc]; rfl) with ⟨rfl, hget⟩
  constructor
  · rw [hs.length, begun, hpc]
    rfl
  · intro hclosed
    cases hclosed
  · intro hclosed
    cases hclosed
  · intro _
    exact BitVec.ofNat_add_ofNat _ 1
  · intro s₀ v hcall
    cases hcall
    exact ⟨rfl, hget⟩
  · intro _ _ _ hwrite
    cases hwrite

theorem writeFence (hs : WriterOk s) (h : s.writeFence = some s') :
    WriterOk s' := by
  rcases writeFence_inv h with ⟨s₀, value, hpc, rfl⟩
  constructor
  · rw [hs.length, begun, hpc]
    rfl
  · intro hclosed
    cases hclosed
  · intro hclosed
    cases hclosed
  · intro _
    exact hs.opened (by rw [hpc]; rfl)
  · intro s₁ v hcall
    cases hcall
    exact hs.call s₀ value (by rw [hpc]; rfl)
  · intro _ _ _ hwrite i hi
    cases hwrite
    cases hi

theorem writeWord (hs : WriterOk s) {i : Fin m}
    (h : s.writeWord i = some s') : WriterOk s' := by
  rcases writeWord_inv h with ⟨s₀, value, written, hpc, _, rfl⟩
  constructor
  · rw [hs.length, begun, hpc]
    rfl
  · intro hclosed
    cases hclosed
  · intro hclosed
    cases hclosed
  · intro _
    exact hs.opened (by rw [hpc]; rfl)
  · intro s₁ v hcall
    cases hcall
    exact hs.call s₀ value (by rw [hpc]; rfl)
  · intro _ _ _ hwrite j hj
    cases hwrite
    exact update_written value (hs.written s₀ value written hpc) i j hj

theorem writeStoreEven (hs : WriterOk s) (h : s.writeStoreEven = some s') :
    WriterOk s' := by
  rcases writeStoreEven_inv h with ⟨s₀, value, written, hpc, hall, rfl⟩
  rcases hs.call s₀ value (by rw [hpc]; rfl) with ⟨rfl, hget⟩
  have hwhole : s.lock.data = value := by
    funext i
    exact hs.written _ value written hpc i (hall i)
  constructor
  · rw [hs.length, begun, hpc]
    rfl
  · intro _
    exact BitVec.ofNat_add_ofNat _ 2
  · intro _
    rw [← hwhole] at hget
    exact hget
  · intro hopened
    cases hopened
  · intro _ _ hcall
    cases hcall
  · intro _ _ _ hwrite
    cases hwrite

theorem frame (hs : WriterOk s) (hlock : s'.lock = s.lock)
    (hpc : s'.writePc = s.writePc) (hversions : s'.versions = s.versions)
    (hcompleted : s'.completed = s.completed) : WriterOk s' := by
  constructor
  · rw [begun, hversions, hcompleted, hpc]
    exact hs.length
  · rw [hlock, hcompleted, hpc]
    exact hs.closed
  · rw [hlock, hversions, hcompleted, hpc]
    exact hs.data
  · rw [hlock, hcompleted, hpc]
    exact hs.opened
  · rw [hversions, hcompleted, hpc]
    exact hs.call
  · rw [hlock, hpc]
    exact hs.written

variable [DecidableEq Id]

theorem read (hs : WriterOk s) {i : Id} {a : ReadAction m}
    (h : s.read i a = some s') : WriterOk s' := by
  cases a with
  | call =>
      rcases readCall_inv h with ⟨_, rfl⟩
      exact hs.frame rfl rfl rfl rfl
  | loadSeq =>
      rcases readLoadSeq_inv h with ⟨_, _, rfl⟩ | ⟨_, _, _, rfl⟩
      · exact hs.frame rfl rfl rfl rfl
      · exact hs.frame rfl rfl rfl rfl
  | loadWord w =>
      rcases readLoadWord_inv h with ⟨_, _, rfl⟩
      exact hs.frame rfl rfl rfl rfl
  | fence =>
      rcases readFence_inv h with ⟨_, _, rfl⟩
      exact hs.frame rfl rfl rfl rfl

theorem step (hs : WriterOk s) {a : Action Id m Word}
    (h : s.step a = some s') : WriterOk s' := by
  cases a with
  | writeCall value => exact hs.writeCall h
  | writeStoreOdd => exact hs.writeStoreOdd h
  | writeFence => exact hs.writeFence h
  | writeWord i => exact hs.writeWord h
  | writeStoreEven => exact hs.writeStoreEven h
  | read i a => exact hs.read h

theorem reachable {initialValue : Payload m Word}
    (hs : (machine Id initialValue).Reachable s) : WriterOk s :=
  hs.invariant (WriterOk.new Id initialValue) (fun _ _ _ hs h => hs.step h)

end WriterOk

/-!
## What `seq` tells a reader
-/

theorem opened_of_even (hs : WriterOk s)
    (heven : s.lock.seq &&& 1#64 ≠ 1#64) : s.writePc.opened = 0 := by
  cases hpc : s.writePc.opened with
  | zero => rfl
  | succ n =>
      have hone : s.writePc.opened = 1 := by
        cases hkind : s.writePc <;> simp [hkind, WritePc.opened] at hpc ⊢
      rw [hs.opened hone] at heven
      exact absurd (Words.odd_test_odd (by decide) s.completed) heven

/--
When `seq` has the word of version `a` again and fewer than `2 ^ 63` odd stores
came in between, no odd store came in between.
-/
theorem opened_le_of_unchanged (hs : WriterOk s) {a : Nat}
    (hseq : s.lock.seq = BitVec.ofNat 64 (2 * a)) (ha : a ≤ s.completed)
    (hfew : s.opened < a + 2 ^ 63) : s.opened ≤ a ∧ a = s.completed := by
  have heven : s.lock.seq &&& 1#64 ≠ 1#64 := by
    rw [hseq]
    exact Words.odd_test_even (by decide) a
  have hclosed := opened_of_even hs heven
  have hopened : s.opened = s.completed := by
    rw [System.opened, hclosed, Nat.add_zero]
  rw [hs.closed hclosed] at hseq
  have heq := Words.eq_of_ofNat_two_mul_eq (show 0 < 64 by decide) ha
    (show s.completed < a + 2 ^ (64 - 1) by lia) hseq.symm
  lia

end System
end Seqlock
end LowLatency
