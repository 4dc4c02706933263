import LowLatency.Foundation.Linearizability
import LowLatency.Foundation.Machine
import LowLatency.Seqlock.Lock

/-!
# Interleaved writer and readers

One writer and any number of concurrent readers share the lock.  Every load and
store is a step of its own, and a payload is written and read one word at a
time in any order.  Loads return the current value, so the fences have no
effect here.
-/

namespace LowLatency
namespace Seqlock

open Foundation
open Foundation.Linearizability

inductive Party (Id : Type _) where
  | writer
  | reader (i : Id)
deriving DecidableEq, Repr

inductive RegisterOp (m : Nat) (Word : Type _) where
  | write (value : Payload m Word)
  | read

inductive RegisterRes (m : Nat) (Word : Type _) where
  | written
  | value (v : Payload m Word)

inductive ReadAction (m : Nat) where
  | call
  | loadSeq
  | loadWord (i : Fin m)
  | fence
deriving DecidableEq, Repr

inductive Action (Id : Type _) (m : Nat) (Word : Type _) where
  | writeCall (value : Payload m Word)
  | writeStoreOdd
  | writeFence
  | writeWord (i : Fin m)
  | writeStoreEven
  | read (i : Id) (a : ReadAction m)

/-!
## State

The history fields are never read by a step.  `versions` are the initial value
and the values of all writes begun so far, and `completed` counts the even
stores.
-/

/-- The state of the system when the current `read` was called. -/
structure ReadCall where
  returned : Nat := 0
  begun : Nat := 0
  opened : Nat := 0
  completed : Nat := 0
  discarded : Nat := 0
deriving DecidableEq, Repr

structure Reader (m : Nat) (Word : Type _) where
  pc : ReadPc m Word
  call : ReadCall

structure ReadRecord (Id : Type _) (m : Nat) (Word : Type _) where
  reader : Id
  value : Payload m Word
  call : ReadCall
  begun : Nat
  opened : Nat
  completed : Nat

structure System (Id : Type _) (m : Nat) (Word : Type _) where
  lock : SeqLock m Word
  writePc : WritePc m Word
  readers : Id -> Reader m Word
  versions : List (Payload m Word)
  completed : Nat
  returns : List (ReadRecord Id m Word)
  trace : List (Event (Party Id) (RegisterOp m Word) (RegisterRes m Word))

namespace System

variable {Id : Type _} {m : Nat} {Word : Type _}

def new (Id : Type _) {m : Nat} {Word : Type _}
    (initialValue : Payload m Word) : System Id m Word where
  lock := SeqLock.new initialValue
  writePc := WritePc.idle
  readers := fun _ => ⟨ReadPc.idle, {}⟩
  versions := [initialValue]
  completed := 0
  returns := []
  trace := []

def begun (s : System Id m Word) : Nat :=
  s.completed + s.writePc.begun

def opened (s : System Id m Word) : Nat :=
  s.completed + s.writePc.opened

theorem completed_le_opened (s : System Id m Word) : s.completed ≤ s.opened :=
  Nat.le_add_right _ _

theorem opened_le_begun (s : System Id m Word) : s.opened ≤ s.begun :=
  Nat.add_le_add_left s.writePc.opened_le_begun _

/-!
## Steps of the writer
-/

/-- The start of `write`: the load of `seq`. -/
def writeCall (s : System Id m Word) (value : Payload m Word) :
    Option (System Id m Word) :=
  match s.writePc with
  | WritePc.idle =>
      some { s with
        writePc := WritePc.storeOdd s.lock.seq value
        versions := s.versions ++ [value]
        trace := s.trace ++
          [Event.call Party.writer (RegisterOp.write value)] }
  | _ => none

def writeStoreOdd (s : System Id m Word) : Option (System Id m Word) :=
  match s.writePc with
  | WritePc.storeOdd s₀ value =>
      some { s with
        lock := { s.lock with seq := s₀ + 1#64 }
        writePc := WritePc.releaseFence s₀ value }
  | _ => none

def writeFence (s : System Id m Word) : Option (System Id m Word) :=
  match s.writePc with
  | WritePc.releaseFence s₀ value =>
      some { s with
        writePc := WritePc.writeData s₀ value (fun _ => false) }
  | _ => none

def writeWord (s : System Id m Word) (i : Fin m) :
    Option (System Id m Word) :=
  match s.writePc with
  | WritePc.writeData s₀ value written =>
      if written i then none
      else
        some { s with
          lock := { s.lock with
            data := Function.update s.lock.data i (value i) }
          writePc :=
            WritePc.writeData s₀ value (Function.update written i true) }
  | _ => none

def writeStoreEven (s : System Id m Word) : Option (System Id m Word) :=
  match s.writePc with
  | WritePc.writeData s₀ _ written =>
      if forall i, written i = true then
        some { s with
          lock := { s.lock with seq := s₀ + 2#64 }
          writePc := WritePc.idle
          completed := s.completed + 1
          trace := s.trace ++
            [Event.ret Party.writer RegisterRes.written] }
      else none
  | _ => none

/-!
## Steps of the readers
-/

variable [DecidableEq Id]

def setReader (s : System Id m Word) (i : Id) (r : Reader m Word) :
    System Id m Word :=
  { s with readers := Function.update s.readers i r }

def readCall (s : System Id m Word) (i : Id) : Option (System Id m Word) :=
  match (s.readers i).pc.call with
  | none => none
  | some pc =>
      some { s.setReader i ⟨pc,
          { returned := s.returns.length
            begun := s.begun
            opened := s.opened
            completed := s.completed }⟩ with
        trace := s.trace ++
          [Event.call (Party.reader i) RegisterOp.read] }

def discard (call : ReadCall) : ReadPc m Word -> ReadCall
  | ReadPc.reloadSeq _ _ => { call with discarded := call.discarded + 1 }
  | _ => call

def readLoadSeq (s : System Id m Word) (i : Id) : Option (System Id m Word) :=
  let r := s.readers i
  match r.pc.gotSeq s.lock.seq with
  | none => none
  | some (pc, none) => some (s.setReader i ⟨pc, discard r.call r.pc⟩)
  | some (pc, some v) =>
      some { s.setReader i ⟨pc, r.call⟩ with
        returns := s.returns ++
          [⟨i, v, r.call, s.begun, s.opened, s.completed⟩]
        trace := s.trace ++
          [Event.ret (Party.reader i) (RegisterRes.value v)] }

def readLoadWord (s : System Id m Word) (i : Id) (w : Fin m) :
    Option (System Id m Word) :=
  let r := s.readers i
  (r.pc.gotWord w (s.lock.data w)).map (fun pc => s.setReader i ⟨pc, r.call⟩)

def readFence (s : System Id m Word) (i : Id) : Option (System Id m Word) :=
  let r := s.readers i
  r.pc.fence.map (fun pc => s.setReader i ⟨pc, r.call⟩)

def read (s : System Id m Word) (i : Id) :
    ReadAction m -> Option (System Id m Word)
  | ReadAction.call => s.readCall i
  | ReadAction.loadSeq => s.readLoadSeq i
  | ReadAction.loadWord w => s.readLoadWord i w
  | ReadAction.fence => s.readFence i

def step (s : System Id m Word) :
    Action Id m Word -> Option (System Id m Word)
  | Action.writeCall value => s.writeCall value
  | Action.writeStoreOdd => s.writeStoreOdd
  | Action.writeFence => s.writeFence
  | Action.writeWord i => s.writeWord i
  | Action.writeStoreEven => s.writeStoreEven
  | Action.read i a => s.read i a

end System

def machine (Id : Type _) [DecidableEq Id] {m : Nat} {Word : Type _}
    (initialValue : Payload m Word) :
    Machine (System Id m Word) (Action Id m Word) where
  start := System.new Id initialValue
  step := System.step

/-!
## What each step does
-/

namespace System

variable {Id : Type _} {m : Nat} {Word : Type _}
variable {s s' : System Id m Word}

theorem writeCall_inv {value : Payload m Word}
    (h : s.writeCall value = some s') :
    s.writePc = WritePc.idle ∧
      s' = { s with
        writePc := WritePc.storeOdd s.lock.seq value
        versions := s.versions ++ [value]
        trace := s.trace ++
          [Event.call Party.writer (RegisterOp.write value)] } := by
  unfold writeCall at h
  split at h
  · rename_i hpc
    exact ⟨hpc, (Option.some.inj h).symm⟩
  · cases h

theorem writeStoreOdd_inv (h : s.writeStoreOdd = some s') :
    exists s₀ value, s.writePc = WritePc.storeOdd s₀ value ∧
      s' = { s with
        lock := { s.lock with seq := s₀ + 1#64 }
        writePc := WritePc.releaseFence s₀ value } := by
  unfold writeStoreOdd at h
  split at h
  · rename_i s₀ value hpc
    exact ⟨s₀, value, hpc, (Option.some.inj h).symm⟩
  · cases h

theorem writeFence_inv (h : s.writeFence = some s') :
    exists s₀ value, s.writePc = WritePc.releaseFence s₀ value ∧
      s' = { s with
        writePc := WritePc.writeData s₀ value (fun _ => false) } := by
  unfold writeFence at h
  split at h
  · rename_i s₀ value hpc
    exact ⟨s₀, value, hpc, (Option.some.inj h).symm⟩
  · cases h

theorem writeWord_inv {i : Fin m} (h : s.writeWord i = some s') :
    exists s₀ value written,
      s.writePc = WritePc.writeData s₀ value written ∧
      written i = false ∧
      s' = { s with
        lock := { s.lock with
          data := Function.update s.lock.data i (value i) }
        writePc :=
          WritePc.writeData s₀ value (Function.update written i true) } := by
  unfold writeWord at h
  split at h
  · rename_i s₀ value written hpc
    split at h
    · cases h
    · rename_i hwritten
      exact ⟨s₀, value, written, hpc, Bool.eq_false_iff.mpr hwritten,
        (Option.some.inj h).symm⟩
  · cases h

theorem writeStoreEven_inv (h : s.writeStoreEven = some s') :
    exists s₀ value written,
      s.writePc = WritePc.writeData s₀ value written ∧
      (forall i, written i = true) ∧
      s' = { s with
        lock := { s.lock with seq := s₀ + 2#64 }
        writePc := WritePc.idle
        completed := s.completed + 1
        trace := s.trace ++
          [Event.ret Party.writer RegisterRes.written] } := by
  unfold writeStoreEven at h
  split at h
  · rename_i s₀ value written hpc
    split at h
    · rename_i hall
      exact ⟨s₀, value, written, hpc, hall, (Option.some.inj h).symm⟩
    · cases h
  · cases h

variable [DecidableEq Id] {i : Id}

theorem readCall_inv (h : s.readCall i = some s') :
    (s.readers i).pc = ReadPc.idle ∧
      s' = { s.setReader i ⟨ReadPc.loadSeq,
          { returned := s.returns.length
            begun := s.begun
            opened := s.opened
            completed := s.completed }⟩ with
        trace := s.trace ++
          [Event.call (Party.reader i) RegisterOp.read] } := by
  unfold readCall at h
  split at h
  · cases h
  · rename_i pc hcall
    rcases ReadPc.call_inv hcall with ⟨hpc, rfl⟩
    exact ⟨hpc, (Option.some.inj h).symm⟩

theorem readLoadSeq_inv (h : s.readLoadSeq i = some s') :
    (exists pc, (s.readers i).pc.gotSeq s.lock.seq = some (pc, none) ∧
      s' = s.setReader i
        ⟨pc, discard (s.readers i).call (s.readers i).pc⟩) ∨
    (exists pc v, (s.readers i).pc.gotSeq s.lock.seq = some (pc, some v) ∧
      s' = { s.setReader i ⟨pc, (s.readers i).call⟩ with
        returns := s.returns ++
          [⟨i, v, (s.readers i).call, s.begun, s.opened, s.completed⟩]
        trace := s.trace ++
          [Event.ret (Party.reader i) (RegisterRes.value v)] }) := by
  unfold readLoadSeq at h
  dsimp only at h
  split at h
  · cases h
  · rename_i pc hgot
    exact Or.inl ⟨pc, hgot, (Option.some.inj h).symm⟩
  · rename_i pc v hgot
    exact Or.inr ⟨pc, v, hgot, (Option.some.inj h).symm⟩

theorem readLoadWord_inv {w : Fin m} (h : s.readLoadWord i w = some s') :
    exists pc, (s.readers i).pc.gotWord w (s.lock.data w) = some pc ∧
      s' = s.setReader i ⟨pc, (s.readers i).call⟩ := by
  rcases Option.map_eq_some_iff.mp h with ⟨pc, hgot, hs'⟩
  exact ⟨pc, hgot, hs'.symm⟩

theorem readFence_inv (h : s.readFence i = some s') :
    exists pc, (s.readers i).pc.fence = some pc ∧
      s' = s.setReader i ⟨pc, (s.readers i).call⟩ := by
  rcases Option.map_eq_some_iff.mp h with ⟨pc, hfence, hs'⟩
  exact ⟨pc, hfence, hs'.symm⟩

theorem setReader_self (s : System Id m Word) (i : Id) (r : Reader m Word) :
    (s.setReader i r).readers i = r := by
  simp only [setReader, Function.update_self]

theorem setReader_of_ne (s : System Id m Word) {i j : Id} (h : j ≠ i)
    (r : Reader m Word) : (s.setReader i r).readers j = s.readers j := by
  simp only [setReader, Function.update_of_ne h]

end System
end Seqlock
end LowLatency
