import LowLatency.Foundation.Words
import LowLatency.Seqlock.Sequential

/-!
# A read that is overrun by the counter

`seq` comes back to the same word after `2 ^ 63` writes.  A write that has
loaded `seq` before a read starts stores its odd `seq` during the read, so
`2 ^ 63 - 1` further writes are enough for the read to accept a torn value.
-/

namespace LowLatency
namespace Seqlock

open Foundation
open Foundation.Linearizability

namespace System

variable {Id : Type _} [DecidableEq Id] {m : Nat} {Word : Type _}
variable {s : System Id m Word} {v : Payload m Word}

/-!
## Many writes
-/

theorem writes_run (n : Nat) (hpc : s.writePc = WritePc.idle)
    {value : Payload m Word} (hdata : s.lock.data = value) :
    exists actions s',
      (machine Id v).runFrom s actions = some s' ∧
      s'.writePc = WritePc.idle ∧
      s'.lock = ⟨value, s.lock.seq + BitVec.ofNat 64 (2 * n)⟩ ∧
      s'.readers = s.readers ∧ s'.returns = s.returns ∧
      s'.versions = s.versions ++ List.replicate n value ∧
      s'.completed = s.completed + n := by
  induction n with
  | zero =>
      refine ⟨[], s, rfl, hpc, ?_, rfl, rfl, (List.append_nil _).symm, rfl⟩
      rw [← hdata, Nat.mul_zero]
      simp
  | succ n ih =>
      rcases ih with ⟨actions, s', hrun, hidle, hlock, hreaders, hreturns,
        hversions, hcompleted⟩
      refine ⟨actions ++ wholeWrite Id value, _,
        Machine.runFrom_trans hrun (wholeWrite_run hidle value), rfl, ?_,
        hreaders, hreturns, ?_, ?_⟩
      · have hseq : BitVec.ofNat 64 (2 * (n + 1)) =
            BitVec.ofNat 64 (2 * n) + 2#64 :=
          (BitVec.ofNat_add_ofNat (2 * n) 2).symm
        rw [hlock, hseq, ← BitVec.add_assoc]
        rfl
      · rw [List.replicate_succ', ← List.append_assoc, ← hversions]
      · rw [hcompleted]
        rfl

/-!
## A read of two words
-/

def startCopy (i : Id) (first : Fin m) : List (Action Id m Word) :=
  [Action.read i ReadAction.call, Action.read i ReadAction.loadSeq,
    Action.read i (ReadAction.loadWord first)]

def finishCopy (i : Id) (last : Fin m) : List (Action Id m Word) :=
  [Action.read i (ReadAction.loadWord last), Action.read i ReadAction.fence,
    Action.read i ReadAction.loadSeq]

section TwoWords

variable {s : System Id 2 Word} {v : Payload 2 Word} {i : Id}

theorem startCopy_run (hpc : (s.readers i).pc = ReadPc.idle)
    (heven : s.lock.seq &&& 1#64 ≠ 1#64) :
    exists s', (machine Id v).runFrom s (startCopy i 0) = some s' ∧
      s'.readers i = ⟨ReadPc.readData s.lock.seq
          (Function.update (fun _ => none) 0 (some (s.lock.data 0))),
        { returned := s.returns.length
          begun := s.begun
          opened := s.opened
          completed := s.completed }⟩ ∧
      s'.lock = s.lock ∧ s'.writePc = s.writePc ∧
      s'.versions = s.versions ∧ s'.returns = s.returns ∧
      s'.completed = s.completed := by
  have hodd : (s.lock.seq &&& 1#64 == 1#64) = false := by
    simpa using heven
  simp [startCopy, Machine.runFrom, machine, step, read, readCall,
    readLoadSeq, readLoadWord, hpc, ReadPc.call, ReadPc.gotSeq,
    ReadPc.gotWord, setReader, hodd, discard]

theorem collect_two (x y : Word) :
    collect (Function.update (Function.update (fun _ : Fin 2 => none) 0
      (some x)) 1 (some y)) = some (Function.update (fun _ => x) 1 y) := by
  rw [collect_eq_some_iff]
  intro j
  rcases eq_or_ne j 1 with rfl | hone
  · rw [Function.update_self, Function.update_self]
  · have hzero : j = 0 := by lia
    rw [Function.update_of_ne hone, Function.update_of_ne hone, hzero,
      Function.update_self]

theorem finishCopy_run {x : Word} {call : ReadCall}
    (hreader : s.readers i = ⟨ReadPc.readData s.lock.seq
      (Function.update (fun _ => none) 0 (some x)), call⟩) :
    exists s', (machine Id v).runFrom s (finishCopy i 1) = some s' ∧
      s'.versions = s.versions ∧
      s'.returns = s.returns ++
        [⟨i, Function.update (fun _ => x) 1 (s.lock.data 1), call, s.begun,
          s.opened, s.completed⟩] := by
  simp [finishCopy, Machine.runFrom, machine, step, read, readLoadSeq,
    readLoadWord, readFence, hreader, ReadPc.gotSeq, ReadPc.gotWord,
    ReadPc.fence, setReader, collect_two, begun, opened]

end TwoWords

/-!
## The torn read
-/

def twice (w : Nat) : Payload 2 Nat :=
  fun _ => w

theorem overrun_run {n : Nat}
    (hround : 2#64 + BitVec.ofNat 64 (2 * n) = 0#64) :
    exists s e, (machine Unit (twice 0)).Reachable s ∧ e ∈ s.returns ∧
      e.call.begun = 1 ∧ e.begun = n + 1 ∧
      e.value = Function.update (twice 0) 1 1 ∧
      s.versions = [twice 0, twice 1] ++ List.replicate n (twice 1) := by
  have hcall := step_writeCall (s := System.new Unit (twice 0)) rfl (twice 1)
  rcases startCopy_run (v := twice 0) (i := ())
    (s := { System.new Unit (twice 0) with
      writePc := WritePc.storeOdd 0#64 (twice 1)
      versions := [twice 0, twice 1]
      trace := [Event.call Party.writer (RegisterOp.write (twice 1))] })
    rfl (by decide) with
    ⟨s₁, hrun₁, hreader, _, hpc, hversions, hreturns, hcompleted⟩
  have hrun₂ := finishWrite_run (v := twice 0) hpc
  rcases writes_run (v := twice 0) n
    (s := { s₁ with
      lock := ⟨twice 1, 0#64 + 2#64⟩
      writePc := WritePc.idle
      completed := s₁.completed + 1
      trace := s₁.trace ++ [Event.ret Party.writer RegisterRes.written] })
    rfl rfl with ⟨actions, s₂, hrun₃, hidle, hlock, hreaders₂, hreturns₂,
      hversions₂, hcompleted₂⟩
  have hlast : s₂.lock = ⟨twice 1, 0#64⟩ := by
    rw [hlock, BitVec.zero_add, hround]
  have hwaiting : s₂.readers () = ⟨ReadPc.readData s₂.lock.seq
      (Function.update (fun _ => none) 0 (some 0)), { begun := 1 }⟩ := by
    rw [hlast, hreaders₂]
    exact hreader
  rcases finishCopy_run (v := twice 0) hwaiting with
    ⟨s₃, hrun₄, hversions₃, hreturns₃⟩
  refine ⟨s₃, ⟨(), Function.update (fun _ => 0) 1 (s₂.lock.data 1),
    { begun := 1 }, s₂.begun, s₂.opened, s₂.completed⟩, ?_, ?_, rfl, ?_, ?_, ?_⟩
  · have hstart := Machine.Reachable.step (M := machine Unit (twice 0))
      (a := Action.writeCall (twice 1)) (Machine.reachable_start _) hcall
    exact (((hstart.runFrom hrun₁).runFrom hrun₂).runFrom hrun₃).runFrom hrun₄
  · rw [hreturns₃]
    exact List.mem_append_right _ (List.mem_singleton.mpr rfl)
  · have hn : s₂.completed = n + 1 := by
      rw [hcompleted₂]
      dsimp only
      rw [hcompleted]
      exact Nat.add_comm _ n
    change s₂.completed + s₂.writePc.begun = n + 1
    rw [hidle, hn]
    rfl
  · dsimp only
    rw [hlast]
    rfl
  · rw [hversions₃, hversions₂]
    dsimp only
    rw [hversions]

/--
Counting the `write` calls that begin during the read is not enough: with
`2 ^ 63 - 1` of them a read can return half of the initial value and half of a
written one.
-/
theorem torn_after_two_pow_calls :
    Not (forall s, (machine Unit (twice 0)).Reachable s ->
      forall e, e ∈ s.returns -> e.begun < e.call.begun + 2 ^ 63 ->
        e.value ∈ s.versions) := by
  intro hclaim
  rcases overrun_run (show 2#64 + BitVec.ofNat 64 (2 * (2 ^ 63 - 1)) = 0#64 by
    decide) with ⟨s, e, hreach, he, hbefore, hbegun, hvalue, hversions⟩
  have hmem := hclaim s hreach e he (by rw [hbegun, hbefore]; decide)
  rw [hversions, hvalue] at hmem
  have hfirst : forall v : Payload 2 Nat, v = Function.update (twice 0) 1 1 ->
      v 0 = 0 ∧ v 1 = 1 := by
    intro v hv
    rw [hv]
    exact ⟨rfl, rfl⟩
  rcases List.mem_append.mp hmem with hpair | hrepeat
  · rcases List.mem_cons.mp hpair with hzero | hrest
    · have hone := (hfirst _ hzero.symm).right
      exact absurd hone Nat.zero_ne_one
    · have hzero := (hfirst _ (List.mem_singleton.mp hrest).symm).left
      exact absurd hzero Nat.one_ne_zero
  · have hzero := (hfirst _ (List.eq_of_mem_replicate hrepeat).symm).left
    exact absurd hzero Nat.one_ne_zero

end System
end Seqlock
end LowLatency
