import LowLatency.Seqlock.System

/-!
# Whole calls as runs of steps

A `write` or a `read` that no other party interrupts does in its steps what the
whole function does.
-/

namespace LowLatency
namespace Seqlock

open Foundation
open Foundation.Linearizability

namespace System

variable {Id : Type _} [DecidableEq Id] {m : Nat} {Word : Type _}
variable {s : System Id m Word} {v : Payload m Word}

/-!
## Enabled steps of the writer
-/

theorem step_writeCall (hpc : s.writePc = WritePc.idle)
    (value : Payload m Word) :
    s.step (Action.writeCall value) = some { s with
      writePc := WritePc.storeOdd s.lock.seq value
      versions := s.versions ++ [value]
      trace := s.trace ++
        [Event.call Party.writer (RegisterOp.write value)] } := by
  rw [step, writeCall, hpc]

theorem step_writeStoreOdd {s₀ : BitVec 64} {value : Payload m Word}
    (hpc : s.writePc = WritePc.storeOdd s₀ value) :
    s.step Action.writeStoreOdd = some { s with
      lock := { s.lock with seq := s₀ + 1#64 }
      writePc := WritePc.releaseFence s₀ value } := by
  rw [step, writeStoreOdd, hpc]

theorem step_writeFence {s₀ : BitVec 64} {value : Payload m Word}
    (hpc : s.writePc = WritePc.releaseFence s₀ value) :
    s.step Action.writeFence = some { s with
      writePc := WritePc.writeData s₀ value (fun _ => false) } := by
  rw [step, writeFence, hpc]

theorem step_writeWord {s₀ : BitVec 64} {value : Payload m Word}
    {written : Fin m -> Bool} {i : Fin m}
    (hpc : s.writePc = WritePc.writeData s₀ value written)
    (hi : written i = false) :
    s.step (Action.writeWord i) = some { s with
      lock := { s.lock with
        data := Function.update s.lock.data i (value i) }
      writePc :=
        WritePc.writeData s₀ value (Function.update written i true) } := by
  simp only [step, writeWord, hpc, hi, Bool.false_eq_true, if_false]

theorem step_writeStoreEven {s₀ : BitVec 64} {value : Payload m Word}
    {written : Fin m -> Bool}
    (hpc : s.writePc = WritePc.writeData s₀ value written)
    (hall : forall i, written i = true) :
    s.step Action.writeStoreEven = some { s with
      lock := { s.lock with seq := s₀ + 2#64 }
      writePc := WritePc.idle
      completed := s.completed + 1
      trace := s.trace ++
        [Event.ret Party.writer RegisterRes.written] } := by
  simp only [step, writeStoreEven, hpc]
  rw [if_pos hall]

/-!
## Whole writes
-/

def finishWrite (Id : Type _) (m : Nat) (Word : Type _) :
    List (Action Id m Word) :=
  Action.writeStoreOdd :: Action.writeFence ::
    ((List.finRange m).map Action.writeWord ++ [Action.writeStoreEven])

def wholeWrite (Id : Type _) (value : Payload m Word) :
    List (Action Id m Word) :=
  Action.writeCall value :: finishWrite Id m Word

theorem writeWords_run {words : List (Fin m)} (hnodup : words.Nodup)
    {s₀ : BitVec 64} {value : Payload m Word} {written : Fin m -> Bool}
    (hpc : s.writePc = WritePc.writeData s₀ value written)
    (hunwritten : forall i, i ∈ words -> written i = false) :
    (machine Id v).runFrom s (words.map Action.writeWord) =
      some { s with
        lock := { s.lock with data := overwrite value s.lock.data words }
        writePc := WritePc.writeData s₀ value
          (overwrite (fun _ => true) written words) } := by
  induction words generalizing s written with
  | nil =>
      rw [overwrite_nil, overwrite_nil, ← hpc]
      rfl
  | cons w rest ih =>
      have hw : written w = false := hunwritten w List.mem_cons_self
      rw [List.map_cons, Machine.runFrom_cons_of_step _ (step_writeWord hpc hw),
        ih (List.nodup_cons.mp hnodup).right rfl
          (untouched_of_nodup hnodup hunwritten),
        ← overwrite_cons, ← overwrite_cons]

theorem finishWrite_run {s₀ : BitVec 64} {value : Payload m Word}
    (hpc : s.writePc = WritePc.storeOdd s₀ value) :
    (machine Id v).runFrom s (finishWrite Id m Word) =
      some { s with
        lock := ⟨value, s₀ + 2#64⟩
        writePc := WritePc.idle
        completed := s.completed + 1
        trace := s.trace ++
          [Event.ret Party.writer RegisterRes.written] } := by
  have hfence := step_writeFence
    (s := { s with
      lock := { s.lock with seq := s₀ + 1#64 }
      writePc := WritePc.releaseFence s₀ value }) rfl
  have hwords := writeWords_run (v := v) (List.nodup_finRange m)
    (s := { s with
      lock := { s.lock with seq := s₀ + 1#64 }
      writePc := WritePc.writeData s₀ value (fun _ => false) })
    rfl (fun _ _ => rfl)
  rw [overwrite_finRange, overwrite_finRange] at hwords
  have heven := step_writeStoreEven
    (s := { s with
      lock := ⟨value, s₀ + 1#64⟩
      writePc := WritePc.writeData s₀ value (fun _ => true) })
    rfl (fun _ => rfl)
  refine (Machine.runFrom_cons_of_step _ (step_writeStoreOdd hpc)).trans ?_
  refine (Machine.runFrom_cons_of_step _ hfence).trans ?_
  apply Machine.runFrom_trans hwords
  exact Machine.runFrom_cons_of_step [] heven

theorem wholeWrite_run (hpc : s.writePc = WritePc.idle)
    (value : Payload m Word) :
    (machine Id v).runFrom s (wholeWrite Id value) =
      some { s with
        lock := s.lock.write value
        writePc := WritePc.idle
        versions := s.versions ++ [value]
        completed := s.completed + 1
        trace := s.trace ++
          [Event.call Party.writer (RegisterOp.write value)] ++
          [Event.ret Party.writer RegisterRes.written] } := by
  rw [wholeWrite, Machine.runFrom_cons_of_step _ (step_writeCall hpc value)]
  exact finishWrite_run rfl

/-!
## Whole reads
-/

def wholeRead (i : Id) (m : Nat) (Word : Type _) : List (Action Id m Word) :=
  Action.read i ReadAction.call :: Action.read i ReadAction.loadSeq ::
    ((List.finRange m).map (fun w => Action.read i (ReadAction.loadWord w)) ++
      [Action.read i ReadAction.fence, Action.read i ReadAction.loadSeq])

variable {i : Id} {call : ReadCall}

theorem setReader_setReader (s : System Id m Word) (i : Id)
    (r r' : Reader m Word) :
    (s.setReader i r).setReader i r' = s.setReader i r' := by
  simp only [setReader, Function.update_idem]

theorem step_readCall (hidle : (s.readers i).pc = ReadPc.idle) :
    s.step (Action.read i ReadAction.call) =
      some { s.setReader i ⟨ReadPc.loadSeq,
          { returned := s.returns.length
            begun := s.begun
            opened := s.opened
            completed := s.completed }⟩ with
        trace := s.trace ++
          [Event.call (Party.reader i) RegisterOp.read] } := by
  simp only [step, read, readCall, hidle, ReadPc.call]

theorem step_readLoadSeq_first (heven : s.lock.seq &&& 1#64 ≠ 1#64) :
    (s.setReader i ⟨ReadPc.loadSeq, call⟩).step
        (Action.read i ReadAction.loadSeq) =
      some (s.setReader i
        ⟨ReadPc.readData s.lock.seq (fun _ => none), call⟩) := by
  have hgot : (ReadPc.loadSeq : ReadPc m Word).gotSeq s.lock.seq =
      some (ReadPc.readData s.lock.seq (fun _ => none), none) :=
    if_neg (by simpa using heven)
  simp only [step, read, readLoadSeq, setReader_self]
  rw [show (s.setReader i ⟨ReadPc.loadSeq, call⟩).lock = s.lock from rfl, hgot]
  simp only [setReader_setReader, discard]

theorem step_readLoadWord {s1 : BitVec 64} {copied : Fin m -> Option Word}
    {w : Fin m} (hw : copied w = none) :
    (s.setReader i ⟨ReadPc.readData s1 copied, call⟩).step
        (Action.read i (ReadAction.loadWord w)) =
      some (s.setReader i ⟨ReadPc.readData s1
        (Function.update copied w (some (s.lock.data w))), call⟩) := by
  simp only [step, read, readLoadWord, setReader_self, ReadPc.gotWord, hw,
    Option.map_some, setReader_setReader]
  rfl

theorem step_readFence {s1 : BitVec 64} {copied : Fin m -> Option Word}
    {value : Payload m Word} (hcollect : collect copied = some value) :
    (s.setReader i ⟨ReadPc.readData s1 copied, call⟩).step
        (Action.read i ReadAction.fence) =
      some (s.setReader i ⟨ReadPc.reloadSeq s1 value, call⟩) := by
  simp only [step, read, readFence, setReader_self, ReadPc.fence, hcollect,
    Option.map_some, setReader_setReader]

theorem step_readLoadSeq_last {value : Payload m Word} :
    (s.setReader i ⟨ReadPc.reloadSeq s.lock.seq value, call⟩).step
        (Action.read i ReadAction.loadSeq) =
      some { s.setReader i ⟨ReadPc.idle, call⟩ with
        returns := s.returns ++
          [⟨i, value, call, s.begun, s.opened, s.completed⟩]
        trace := s.trace ++
          [Event.ret (Party.reader i) (RegisterRes.value value)] } := by
  have hgot : (ReadPc.reloadSeq s.lock.seq value).gotSeq s.lock.seq =
      some (ReadPc.idle, some value) :=
    if_pos (beq_self_eq_true s.lock.seq)
  simp only [step, read, readLoadSeq, setReader_self]
  rw [show (s.setReader i ⟨ReadPc.reloadSeq s.lock.seq value, call⟩).lock =
    s.lock from rfl, hgot]
  simp only [setReader_setReader]
  rfl

theorem readWords_run {words : List (Fin m)} (hnodup : words.Nodup)
    {s1 : BitVec 64} {copied : Fin m -> Option Word}
    (huncopied : forall w, w ∈ words -> copied w = none) :
    (machine Id v).runFrom (s.setReader i ⟨ReadPc.readData s1 copied, call⟩)
        (words.map (fun w => Action.read i (ReadAction.loadWord w))) =
      some (s.setReader i ⟨ReadPc.readData s1
        (overwrite (fun w => some (s.lock.data w)) copied words), call⟩) := by
  induction words generalizing copied with
  | nil =>
      rw [overwrite_nil]
      rfl
  | cons w rest ih =>
      have hw : copied w = none := huncopied w List.mem_cons_self
      rw [List.map_cons, Machine.runFrom_cons_of_step _ (step_readLoadWord hw),
        ih (List.nodup_cons.mp hnodup).right
          (untouched_of_nodup hnodup huncopied),
        ← overwrite_cons]

/-- The loop returns in its first iteration, unless `seq` is odd. -/
theorem wholeRead_run (hidle : (s.readers i).pc = ReadPc.idle)
    {fuel : Nat} {value : Payload m Word}
    (hread : s.lock.read fuel = some value) :
    (machine Id v).runFrom s (wholeRead i m Word) =
      some { s.setReader i ⟨ReadPc.idle,
          { returned := s.returns.length
            begun := s.begun
            opened := s.opened
            completed := s.completed }⟩ with
        returns := s.returns ++ [⟨i, value,
          { returned := s.returns.length
            begun := s.begun
            opened := s.opened
            completed := s.completed }, s.begun, s.opened, s.completed⟩]
        trace := s.trace ++
          [Event.call (Party.reader i) RegisterOp.read] ++
          [Event.ret (Party.reader i) (RegisterRes.value value)] } := by
  rcases SeqLock.read_eq_some.mp hread with ⟨_, heven, rfl⟩
  let t : System Id m Word := { s with
    trace := s.trace ++ [Event.call (Party.reader i) RegisterOp.read] }
  have hwords : forall call, (machine Id v).runFrom
      (t.setReader i ⟨ReadPc.readData s.lock.seq (fun _ => none), call⟩)
        ((List.finRange m).map
          (fun w => Action.read i (ReadAction.loadWord w))) =
      some (t.setReader i ⟨ReadPc.readData s.lock.seq
        (fun w => some (s.lock.data w)), call⟩) := by
    intro call
    rw [readWords_run (List.nodup_finRange m) (fun _ _ => rfl),
      overwrite_finRange]
  rw [wholeRead, Machine.runFrom_cons_of_step _ (step_readCall hidle),
    Machine.runFrom_cons_of_step _
      (step_readLoadSeq_first (s := t) heven)]
  apply Machine.runFrom_trans (hwords _)
  rw [Machine.runFrom_cons_of_step _
      (step_readFence (collect_eq_some_iff.mpr (fun _ => rfl))),
    Machine.runFrom_cons_of_step _ (step_readLoadSeq_last (s := t))]
  rfl

end System
end Seqlock
end LowLatency
