import LowLatency.Seqlock.Readers

/-!
# The seqlock as a register

A write takes effect at its even store and a read at its last load.  A read is
sound as long as fewer than `2 ^ 63` odd stores fall into it.
-/

namespace LowLatency
namespace Seqlock

open Foundation
open Foundation.Linearizability

def register {m : Nat} {Word : Type _} (initialValue : Payload m Word) :
    SequentialObject (Payload m Word) (RegisterOp m Word)
      (RegisterRes m Word) where
  start := initialValue
  apply
    | _, RegisterOp.write value => (RegisterRes.written, value)
    | v, RegisterOp.read => (RegisterRes.value v, v)

def ReadRecord.Short {Id : Type _} {m : Nat} {Word : Type _}
    (e : ReadRecord Id m Word) : Prop :=
  e.opened < e.call.opened + 2 ^ 63

instance {Id : Type _} {m : Nat} {Word : Type _} (e : ReadRecord Id m Word) :
    Decidable e.Short :=
  inferInstanceAs (Decidable (_ < _))

namespace System

variable {Id : Type _} {m : Nat} {Word : Type _}
variable {s s' : System Id m Word} {initialValue : Payload m Word}

def writeStatus : WritePc m Word ->
    Status (RegisterOp m Word) (RegisterRes m Word)
  | WritePc.idle => Status.idle
  | WritePc.storeOdd _ value => Status.called (RegisterOp.write value)
  | WritePc.releaseFence _ value => Status.called (RegisterOp.write value)
  | WritePc.writeData _ value _ => Status.called (RegisterOp.write value)

def readStatus : ReadPc m Word ->
    Status (RegisterOp m Word) (RegisterRes m Word)
  | ReadPc.idle => Status.idle
  | _ => Status.called RegisterOp.read

def status (s : System Id m Word) :
    Party Id -> Status (RegisterOp m Word) (RegisterRes m Word)
  | Party.writer => writeStatus s.writePc
  | Party.reader i => readStatus (s.readers i).pc

section Linearized

variable [DecidableEq Id]

def Linearized (initialValue : Payload m Word) (s : System Id m Word) : Prop :=
  exists current, s.versions[s.completed]? = some current ∧
    Serves (register initialValue) s.trace current s.status

namespace Linearized

theorem new (Id : Type _) [DecidableEq Id] (initialValue : Payload m Word) :
    Linearized initialValue (System.new Id initialValue) := by
  refine ⟨initialValue, rfl, Serves.start.congr_status ?_⟩
  intro t
  cases t <;> rfl

theorem frame (hl : Linearized initialValue s)
    (htrace : s'.trace = s.trace) (hversions : s'.versions = s.versions)
    (hcompleted : s'.completed = s.completed)
    (hstatus : forall t, s.status t = s'.status t) :
    Linearized initialValue s' := by
  rcases hl with ⟨current, hcurrent, hserves⟩
  refine ⟨current, ?_, ?_⟩
  · rw [hversions, hcompleted]
    exact hcurrent
  · rw [htrace]
    exact hserves.congr_status hstatus

theorem writeCall (hl : Linearized initialValue s) {value : Payload m Word}
    (h : s.writeCall value = some s') : Linearized initialValue s' := by
  rcases writeCall_inv h with ⟨hpc, rfl⟩
  rcases hl with ⟨current, hcurrent, hserves⟩
  have hidle : s.status Party.writer = Status.idle := by
    simp [status, hpc, writeStatus]
  refine ⟨current, getElem?_append_of_eq_some hcurrent _, ?_⟩
  refine (Serves.call Party.writer (RegisterOp.write value) hserves
    hidle).congr_status ?_
  intro t
  cases t <;> simp [status, writeStatus]

/-- A write takes effect at its even store. -/
theorem writeStoreEven (hw : WriterOk s) (hl : Linearized initialValue s)
    (h : s.writeStoreEven = some s') : Linearized initialValue s' := by
  rcases writeStoreEven_inv h with ⟨s₀, value, written, hpc, _, rfl⟩
  rcases hl with ⟨current, _, hserves⟩
  have hget := (hw.call s₀ value (by rw [hpc]; rfl)).right
  have hcalled : s.status Party.writer =
      Status.called (RegisterOp.write value) := by
    simp [status, hpc, writeStatus]
  refine ⟨value, hget, ?_⟩
  refine (Serves.effect_ret hserves hcalled rfl).congr_status ?_
  intro t
  cases t <;> simp [status, writeStatus]

theorem status_setReader (s : System Id m Word) (i : Id) (r : Reader m Word)
    (t : Party Id) :
    Function.update s.status (Party.reader i) (readStatus r.pc) t =
      (s.setReader i r).status t := by
  cases t with
  | writer => simp [status, setReader]
  | reader j =>
      rcases eq_or_ne j i with rfl | hne
      · simp [status, setReader]
      · have hother : Party.reader j ≠ Party.reader i := by
          intro heq
          cases heq
          exact hne rfl
        rw [Function.update_of_ne hother, status, status,
          setReader_of_ne s hne]

theorem readFrame (hl : Linearized initialValue s) {i : Id}
    {r : Reader m Word}
    (hr : readStatus r.pc = readStatus (s.readers i).pc) :
    Linearized initialValue (s.setReader i r) := by
  refine hl.frame rfl rfl rfl ?_
  intro t
  rw [← status_setReader, hr]
  exact (congrFun (Function.update_eq_self (Party.reader i) s.status) t).symm

theorem readCall (hl : Linearized initialValue s) {i : Id}
    (h : s.readCall i = some s') : Linearized initialValue s' := by
  rcases readCall_inv h with ⟨hpc, rfl⟩
  rcases hl with ⟨current, hcurrent, hserves⟩
  have hidle : s.status (Party.reader i) = Status.idle := by
    simp [status, hpc, readStatus]
  refine ⟨current, hcurrent, ?_⟩
  refine (Serves.call (Party.reader i) RegisterOp.read hserves
    hidle).congr_status ?_
  exact status_setReader s i ⟨ReadPc.loadSeq, _⟩

/-- A read takes effect at its last load. -/
theorem readLoadSeq (hw : WriterOk s) (hs : ReadersOk s)
    (hl : Linearized initialValue s) {i : Id}
    (hshort : forall e, e ∈ s'.returns -> e.Short)
    (h : s.readLoadSeq i = some s') : Linearized initialValue s' := by
  rcases readLoadSeq_inv h with ⟨pc, hgot, rfl⟩ | ⟨pc, v, hgot, rfl⟩
  · apply hl.readFrame
    rcases ReadPc.gotSeq_inv hgot with ⟨hpc, _, rfl, _⟩ | ⟨hpc, _, rfl, _⟩ |
      ⟨_, _, _, hout⟩ | ⟨_, _, hpc, _, rfl, _⟩
    · rw [hpc]
    · rw [hpc]
      rfl
    · cases hout
    · rw [hpc]
      rfl
  · rcases (hs.readers i).value hw hgot with ⟨rfl, hvalue⟩
    rcases hl with ⟨current, hcurrent, hserves⟩
    have hlast := hvalue (hshort _ (List.mem_append_right _
      (List.mem_singleton.mpr rfl)))
    have hsame : current = v := by
      rw [hlast] at hcurrent
      exact (Option.some.inj hcurrent).symm
    subst hsame
    have hcalled : s.status (Party.reader i) =
        Status.called RegisterOp.read := by
      rcases ReadPc.gotSeq_inv hgot with ⟨_, _, _, hout⟩ | ⟨_, _, _, hout⟩ |
        ⟨_, hpc, _, _⟩ | ⟨_, _, _, _, _, hout⟩
      · cases hout
      · cases hout
      · rw [status, hpc]
        rfl
      · cases hout
    refine ⟨current, hcurrent, ?_⟩
    refine (Serves.effect_ret hserves hcalled rfl).congr_status ?_
    exact status_setReader s i ⟨ReadPc.idle, (s.readers i).call⟩

theorem read (hw : WriterOk s) (hs : ReadersOk s)
    (hl : Linearized initialValue s) {i : Id} {a : ReadAction m}
    (hshort : forall e, e ∈ s'.returns -> e.Short)
    (h : s.read i a = some s') : Linearized initialValue s' := by
  cases a with
  | call => exact hl.readCall h
  | loadSeq => exact readLoadSeq hw hs hl hshort h
  | loadWord w =>
      rcases readLoadWord_inv h with ⟨pc, hgot, rfl⟩
      rcases ReadPc.gotWord_inv hgot with ⟨_, _, hpc, _, rfl⟩
      apply hl.readFrame
      rw [hpc]
      rfl
  | fence =>
      rcases readFence_inv h with ⟨pc, hfence, rfl⟩
      rcases ReadPc.fence_inv hfence with ⟨_, _, _, hpc, _, rfl⟩
      apply hl.readFrame
      rw [hpc]
      rfl

theorem step (hw : WriterOk s) (hs : ReadersOk s)
    (hl : Linearized initialValue s) {a : Action Id m Word}
    (hshort : forall e, e ∈ s'.returns -> e.Short)
    (h : s.step a = some s') : Linearized initialValue s' := by
  cases a with
  | writeCall value => exact hl.writeCall h
  | writeStoreOdd =>
      rcases writeStoreOdd_inv h with ⟨s₀, value, hpc, rfl⟩
      refine hl.frame rfl rfl rfl ?_
      intro t
      cases t <;> simp [status, hpc, writeStatus]
  | writeFence =>
      rcases writeFence_inv h with ⟨s₀, value, hpc, rfl⟩
      refine hl.frame rfl rfl rfl ?_
      intro t
      cases t <;> simp [status, hpc, writeStatus]
  | writeWord i =>
      rcases writeWord_inv h with ⟨s₀, value, written, hpc, _, rfl⟩
      refine hl.frame rfl rfl rfl ?_
      intro t
      cases t <;> simp [status, hpc, writeStatus]
  | writeStoreEven => exact writeStoreEven hw hl h
  | read i a => exact read hw hs hl hshort h

theorem returns_step {a : Action Id m Word} (h : s.step a = some s')
    {e : ReadRecord Id m Word} (he : e ∈ s.returns) : e ∈ s'.returns := by
  cases a with
  | read i a =>
      cases a with
      | call =>
          rcases readCall_inv h with ⟨_, rfl⟩
          exact he
      | loadSeq =>
          rcases readLoadSeq_inv h with ⟨_, _, rfl⟩ | ⟨_, _, _, rfl⟩
          · exact he
          · exact List.mem_append_left _ he
      | loadWord w =>
          rcases readLoadWord_inv h with ⟨_, _, rfl⟩
          exact he
      | fence =>
          rcases readFence_inv h with ⟨_, _, rfl⟩
          exact he
  | _ =>
      rcases Advances.writer h (by intro i b hread; cases hread) with
        ⟨_, hreturns, _⟩
      rw [hreturns]
      exact he

theorem reachable (hs : (machine Id initialValue).Reachable s)
    (hshort : forall e, e ∈ s.returns -> e.Short) :
    Linearized initialValue s := by
  have hall : (forall e, e ∈ s.returns -> e.Short) ->
      Linearized initialValue s := by
    apply hs.invariant_of_reachable
      (P := fun s => (forall e, e ∈ s.returns -> e.Short) ->
        Linearized initialValue s)
      (fun _ => Linearized.new Id initialValue)
    intro s a s' hreach hl h hshort
    refine step (WriterOk.reachable hreach) (ReadersOk.reachable hreach)
      (hl ?_) hshort h
    intro e he
    exact hshort e (returns_step h he)
  exact hall hshort

end Linearized

/--
A read into which fewer than `2 ^ 63` odd stores fall returns the latest
completed version at its last load; the versions at the ends of reads follow
the order of the reads.  A run of such reads is a run of the register.
-/
theorem linearizable_register
    (hreach : (machine Id initialValue).Reachable s) :
    (forall e, e ∈ s.returns -> e.Short ->
      s.versions[e.completed]? = some e.value) ∧
    (forall e, e ∈ s.returns -> e.call.completed ≤ e.completed) ∧
    (forall (j k : Nat) (e e' : ReadRecord Id m Word),
      s.returns[j]? = some e -> s.returns[k]? = some e' ->
      j < e'.call.returned -> e.completed ≤ e'.completed) ∧
    ((forall e, e ∈ s.returns -> e.Short) ->
      Linearizable (register initialValue) s.trace) := by
  have hs := ReadersOk.reachable hreach
  refine ⟨fun e he => (hs.returns e he).value,
    fun e he => (hs.returns e he).call.completed, ?_, ?_⟩
  · intro j k e e' hj hk hbefore
    have hcall := (hs.returns e' (List.mem_of_getElem? hk)).call
    exact Nat.le_trans (hcall.earlier j e hbefore hj) hcall.completed
  · intro hshort
    rcases Linearized.reachable hreach hshort with ⟨_, _, hserves⟩
    exact hserves.linearizable

/-- A read overtaken by a write between its two words. -/
theorem linearizable_register_overtaken :
    exists s, (machine Unit (fun _ : Fin 2 => 0)).run
        [Action.read () ReadAction.call, Action.read () ReadAction.loadSeq,
          Action.read () (ReadAction.loadWord 0),
          Action.writeCall (fun _ => 1), Action.writeStoreOdd,
          Action.writeFence, Action.writeWord 1, Action.writeWord 0,
          Action.writeStoreEven,
          Action.read () (ReadAction.loadWord 1),
          Action.read () ReadAction.fence, Action.read () ReadAction.loadSeq,
          Action.read () ReadAction.loadSeq,
          Action.read () (ReadAction.loadWord 1),
          Action.read () (ReadAction.loadWord 0),
          Action.read () ReadAction.fence,
          Action.read () ReadAction.loadSeq] = some s ∧
      s.returns.map (fun e => (e.value 0, e.value 1)) = [(1, 1)] ∧
      Linearizable (register (fun _ : Fin 2 => 0)) s.trace := by
  apply Machine.exists_run_of_map
    (fun s => (s.returns.map (fun e => (e.value 0, e.value 1)),
      s.returns.all (fun e => decide e.Short)))
    ([(1, 1)], true) (by decide +kernel)
  intro s hrun hshown
  rcases Prod.mk.inj hshown with ⟨hvalues, hall⟩
  refine ⟨hvalues,
    (linearizable_register ⟨_, hrun⟩).right.right.right ?_⟩
  intro e he
  exact of_decide_eq_true (List.all_eq_true.mp hall e he)

end Linearized
end System
end Seqlock
end LowLatency
