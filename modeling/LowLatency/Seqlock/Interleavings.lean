import LowLatency.Foundation.NewestLoads
import LowLatency.Seqlock.System
import LowLatency.Seqlock.ViewSystem

/-!
# Interleavings as executions under weak memory

When every load returns the newest store, the store histories are a plain
memory.  Every interleaving of the steps on the lock itself is therefore one of
the executions under weak memory, with the same returned values.
-/

namespace LowLatency
namespace Seqlock

open Foundation

variable {m : Nat} {Word : Type}

def newestLock (memory : ViewMemory (Location m) (Location.Val Word)) :
    SeqLock m Word where
  data := fun w => (memory (Location.word w)).current.value
  seq := (memory Location.seq).current.value

theorem newestLock_append_seq
    (memory : ViewMemory (Location m) (Location.Val Word))
    (seq : BitVec 64) (view : View (Location m)) :
    newestLock (memory.append Location.seq ⟨seq, view⟩) =
      { newestLock memory with seq := seq } := by
  have hdata : (newestLock (memory.append Location.seq ⟨seq, view⟩)).data =
      (newestLock memory).data := by
    funext w
    have hne : Location.word w ≠ Location.seq := by
      intro h
      cases h
    exact congrArg Message.value
      (ViewMemory.current_append_of_ne memory ⟨seq, view⟩ hne)
  change _ = SeqLock.mk (newestLock memory).data seq
  rw [← hdata]
  exact congrArg (SeqLock.mk _) (congrArg Message.value
    (ViewMemory.current_append_self memory Location.seq ⟨seq, view⟩))

theorem newestLock_append_word
    (memory : ViewMemory (Location m) (Location.Val Word)) (w : Fin m)
    (word : Word) (view : View (Location m)) :
    newestLock (memory.append (Location.word w) ⟨word, view⟩) =
      { newestLock memory with
        data := Function.update (newestLock memory).data w word } := by
  have hdata :
      (newestLock (memory.append (Location.word w) ⟨word, view⟩)).data =
        Function.update (newestLock memory).data w word := by
    funext v
    rcases eq_or_ne v w with rfl | hne
    · rw [Function.update_self]
      exact congrArg Message.value
        (ViewMemory.current_append_self memory (Location.word v) ⟨word, view⟩)
    · have hwords : Location.word v ≠ Location.word w := by
        intro h
        cases h
        exact hne rfl
      rw [Function.update_of_ne hne]
      exact congrArg Message.value
        (ViewMemory.current_append_of_ne memory ⟨word, view⟩ hwords)
  have hseq : Location.seq ≠ Location.word w := by
    intro h
    cases h
  rw [← hdata]
  exact congrArg (SeqLock.mk _) (congrArg Message.value
    (ViewMemory.current_append_of_ne memory ⟨word, view⟩ hseq))

variable {Id : Type _}

structure Mirrors (s : System Id m Word) (t : ViewSystem Id m Word) :
    Prop where
  lock : s.lock = newestLock t.memory
  writePc : s.writePc = t.writePc
  readers : forall i, (s.readers i).pc = (t.readers i).pc
  versions : s.versions = t.versions
  completed : s.completed = t.completed
  returns : s.returns.map (fun e => (e.reader, e.value)) =
    t.returns.map (fun e => (e.reader, e.value))
  grounded : t.memory.Grounded
  writer : t.memory.Knows t.writer
  known : forall i, t.memory.Knows (t.readers i).view

namespace Mirrors

variable {s s' : System Id m Word} {t : ViewSystem Id m Word}

theorem new (Id : Type _) (initialValue : Payload m Word) :
    Mirrors (System.new Id initialValue)
      (ViewSystem.new Id initialValue) where
  lock := rfl
  writePc := rfl
  readers _ := rfl
  versions := rfl
  completed := rfl
  returns := rfl
  grounded := ViewMemory.grounded_init _
  writer := ViewMemory.knows_start _
  known _ := ViewMemory.knows_start _

/-!
## Steps of the writer
-/

theorem writeCall (hs : Mirrors s t) {value : Payload m Word}
    (h : s.writeCall value = some s') :
    exists t', t.writeCall value (t.memory Location.seq).lastIndex =
      some t' ∧ Mirrors s' t' := by
  rcases System.writeCall_inv h with ⟨hpc, rfl⟩
  rw [hs.writePc] at hpc
  have hcall : t.writeCall value (t.memory Location.seq).lastIndex =
      some { t with
        writer := t.writer.loadRelaxed Location.seq
          (t.memory Location.seq).lastIndex (t.memory Location.seq).current
        writePc := WritePc.storeOdd (t.memory Location.seq).current.value value
        versions := t.versions ++ [value] } := by
    rw [ViewSystem.writeCall, hpc, hs.writer.current.load_newest]
  refine ⟨_, hcall, ?_⟩
  exact { hs with
    writePc := by rw [hs.lock]; rfl
    versions := congrArg (· ++ [value]) hs.versions
    writer := hs.writer.loadRelaxed hs.grounded _ }

theorem writeStoreOdd (hs : Mirrors s t) (h : s.writeStoreOdd = some s') :
    exists t', t.writeStoreOdd = some t' ∧ Mirrors s' t' := by
  rcases System.writeStoreOdd_inv h with ⟨s₀, value, hpc, rfl⟩
  rw [hs.writePc] at hpc
  have hstore : t.writeStoreOdd = some { t with
      memory :=
        (t.memory.storeRelaxed t.writer Location.seq (s₀ + 1#64)).1
      writer :=
        (t.memory.storeRelaxed t.writer Location.seq (s₀ + 1#64)).2
      writePc := WritePc.releaseFence s₀ value } := by
    rw [ViewSystem.writeStoreOdd, hpc]
  refine ⟨_, hstore, ?_⟩
  exact { hs with
    lock := by
      rw [hs.lock]
      exact (newestLock_append_seq t.memory _ _).symm
    writePc := rfl
    grounded := hs.grounded.storeRelaxed hs.writer _ _
    writer := hs.writer.stored _ _
    known := fun i => (hs.known i).append _ _ }

theorem writeFence (hs : Mirrors s t) (h : s.writeFence = some s') :
    exists t', t.writeFence = some t' ∧ Mirrors s' t' := by
  rcases System.writeFence_inv h with ⟨s₀, value, hpc, rfl⟩
  rw [hs.writePc] at hpc
  have hfence : t.writeFence = some { t with
      writer := t.writer.fenceRelease
      writePc := WritePc.writeData s₀ value (fun _ => false) } := by
    rw [ViewSystem.writeFence, hpc]
  refine ⟨_, hfence, ?_⟩
  exact { hs with
    writePc := rfl
    writer := hs.writer.fenceRelease }

theorem writeWord (hs : Mirrors s t) {w : Fin m}
    (h : s.writeWord w = some s') :
    exists t', t.writeWord w = some t' ∧ Mirrors s' t' := by
  rcases System.writeWord_inv h with ⟨s₀, value, written, hpc, hw, rfl⟩
  rw [hs.writePc] at hpc
  have hstore : t.writeWord w = some { t with
      memory := (t.memory.storeRelaxed t.writer (Location.word w)
        (value w)).1
      writer := (t.memory.storeRelaxed t.writer (Location.word w)
        (value w)).2
      writePc :=
        WritePc.writeData s₀ value (Function.update written w true) } := by
    simp only [ViewSystem.writeWord, hpc, hw, Bool.false_eq_true, if_false]
  refine ⟨_, hstore, ?_⟩
  exact { hs with
    lock := by
      rw [hs.lock]
      exact (newestLock_append_word t.memory w _ _).symm
    writePc := rfl
    grounded := hs.grounded.storeRelaxed hs.writer _ _
    writer := hs.writer.stored _ _
    known := fun i => (hs.known i).append _ _ }

theorem writeStoreEven (hs : Mirrors s t) (h : s.writeStoreEven = some s') :
    exists t', t.writeStoreEven = some t' ∧ Mirrors s' t' := by
  rcases System.writeStoreEven_inv h with ⟨s₀, value, written, hpc, hall, rfl⟩
  rw [hs.writePc] at hpc
  have hstore : t.writeStoreEven = some { t with
      memory :=
        (t.memory.storeRelease t.writer Location.seq (s₀ + 2#64)).1
      writer :=
        (t.memory.storeRelease t.writer Location.seq (s₀ + 2#64)).2
      writePc := WritePc.idle
      completed := t.completed + 1 } := by
    simp only [ViewSystem.writeStoreEven, hpc]
    rw [if_pos hall]
  refine ⟨_, hstore, ?_⟩
  exact { hs with
    lock := by
      rw [hs.lock]
      exact (newestLock_append_seq t.memory _ _).symm
    writePc := rfl
    completed := congrArg (· + 1) hs.completed
    grounded := hs.grounded.storeRelease hs.writer _ _
    writer := hs.writer.stored _ _
    known := fun i => (hs.known i).append _ _ }

/-!
## Steps of the readers
-/

theorem afterSeq_ok (hs : Mirrors s t) (i : Id) (pc : ReadPc m Word) :
    (ViewSystem.afterSeq (t.readers i) pc (t.memory Location.seq).lastIndex
        (t.memory Location.seq).current).pc = pc ∧
      t.memory.Knows (ViewSystem.afterSeq (t.readers i) pc
        (t.memory Location.seq).lastIndex
        (t.memory Location.seq).current).view := by
  unfold ViewSystem.afterSeq
  split
  · exact ⟨rfl, (hs.known i).loadAcquire hs.grounded _⟩
  · exact ⟨rfl, (hs.known i).loadRelaxed hs.grounded _⟩

variable [DecidableEq Id]

theorem setReader (hs : Mirrors s t) (i : Id) {r : Reader m Word}
    {v : ViewReader m Word} (hpc : r.pc = v.pc)
    (hview : t.memory.Knows v.view) :
    Mirrors (s.setReader i r) (t.setReader i v) := by
  refine { hs with readers := ?_, known := ?_ }
  · intro j
    rcases eq_or_ne j i with rfl | hne
    · rw [System.setReader_self, ViewSystem.setReader_self]
      exact hpc
    · rw [System.setReader_of_ne s hne, ViewSystem.setReader_of_ne t hne]
      exact hs.readers j
  · intro j
    rcases eq_or_ne j i with rfl | hne
    · rw [ViewSystem.setReader_self]
      exact hview
    · rw [ViewSystem.setReader_of_ne t hne]
      exact hs.known j

theorem readCall (hs : Mirrors s t) {i : Id} (h : s.readCall i = some s') :
    exists t', t.readCall i = some t' ∧ Mirrors s' t' := by
  rcases System.readCall_inv h with ⟨hpc, rfl⟩
  rw [hs.readers] at hpc
  have hcall : t.readCall i = some (t.setReader i
      { t.readers i with pc := ReadPc.loadSeq }) := by
    simp only [ViewSystem.readCall, hpc, ReadPc.call, Option.map_some]
  refine ⟨_, hcall, ?_⟩
  have hset := hs.setReader i (r := ⟨ReadPc.loadSeq, {
      returned := s.returns.length
      begun := s.begun
      opened := s.opened
      completed := s.completed }⟩)
    (v := { t.readers i with pc := ReadPc.loadSeq }) rfl (hs.known i)
  exact { hset with }

theorem readLoadSeq (hs : Mirrors s t) {i : Id}
    (h : s.readLoadSeq i = some s') :
    exists t', t.readLoadSeq i (t.memory Location.seq).lastIndex = some t' ∧
      Mirrors s' t' := by
  have hload := (hs.known i).current.load_newest Location.seq
  have hseq : s.lock.seq = (t.memory Location.seq).current.value :=
    congrArg SeqLock.seq hs.lock
  rcases System.readLoadSeq_inv h with ⟨pc, hgot, rfl⟩ | ⟨pc, v, hgot, rfl⟩
  · rcases hs.afterSeq_ok i pc with ⟨hpc, hview⟩
    rw [hs.readers, hseq] at hgot
    refine ⟨_, ?_, hs.setReader i hpc.symm hview⟩
    simp only [ViewSystem.readLoadSeq, hload, hgot]
  · rcases hs.afterSeq_ok i pc with ⟨hpc, hview⟩
    rw [hs.readers, hseq] at hgot
    have hstep : t.readLoadSeq i (t.memory Location.seq).lastIndex =
        some { t.setReader i (ViewSystem.afterSeq (t.readers i) pc
            (t.memory Location.seq).lastIndex
            (t.memory Location.seq).current) with
          returns := t.returns ++
            [⟨i, v, (t.readers i).seqIndex / 2⟩] } := by
      simp only [ViewSystem.readLoadSeq, hload, hgot]
    refine ⟨_, hstep, ?_⟩
    have hset := hs.setReader i (r := ⟨pc, (s.readers i).call⟩)
      hpc.symm hview
    refine { hset with returns := ?_ }
    rw [List.map_append, List.map_append, hs.returns]
    rfl

theorem readLoadWord (hs : Mirrors s t) {i : Id} {w : Fin m}
    (h : s.readLoadWord i w = some s') :
    exists t', t.readLoadWord i w (t.memory (Location.word w)).lastIndex =
      some t' ∧ Mirrors s' t' := by
  have hload := (hs.known i).current.load_newest (Location.word w)
  have hdata : s.lock.data w = (t.memory (Location.word w)).current.value :=
    congrArg (fun l => l.data w) hs.lock
  rcases System.readLoadWord_inv h with ⟨pc, hgot, rfl⟩
  rw [hs.readers, hdata] at hgot
  have hset := hs.setReader i (r := ⟨pc, (s.readers i).call⟩)
    (v := { t.readers i with
      pc := pc
      view := (t.readers i).view.loadRelaxed (Location.word w)
        (t.memory (Location.word w)).lastIndex
        (t.memory (Location.word w)).current }) rfl
    ((hs.known i).loadRelaxed hs.grounded (Location.word w))
  refine ⟨_, ?_, hset⟩
  simp only [ViewSystem.readLoadWord, hload, hgot, Option.map_some]

theorem readFence (hs : Mirrors s t) {i : Id} (h : s.readFence i = some s') :
    exists t', t.readFence i = some t' ∧ Mirrors s' t' := by
  rcases System.readFence_inv h with ⟨pc, hfence, rfl⟩
  rw [hs.readers] at hfence
  have hset := hs.setReader i (r := ⟨pc, (s.readers i).call⟩)
    (v := { t.readers i with
      pc := pc
      view := (t.readers i).view.fenceAcquire }) rfl
    (hs.known i).fenceAcquire
  refine ⟨_, ?_, hset⟩
  simp only [ViewSystem.readFence, hfence, Option.map_some]

/-!
## Every interleaving
-/

def newestAction (t : ViewSystem Id m Word) :
    Action Id m Word -> ViewAction Id m Word
  | Action.writeCall value =>
      ViewAction.writeCall value (t.memory Location.seq).lastIndex
  | Action.writeStoreOdd => ViewAction.writeStoreOdd
  | Action.writeFence => ViewAction.writeFence
  | Action.writeWord w => ViewAction.writeWord w
  | Action.writeStoreEven => ViewAction.writeStoreEven
  | Action.read i ReadAction.call => ViewAction.read i ViewReadAction.call
  | Action.read i ReadAction.loadSeq =>
      ViewAction.read i
        (ViewReadAction.loadSeq (t.memory Location.seq).lastIndex)
  | Action.read i (ReadAction.loadWord w) =>
      ViewAction.read i
        (ViewReadAction.loadWord w (t.memory (Location.word w)).lastIndex)
  | Action.read i ReadAction.fence => ViewAction.read i ViewReadAction.fence

theorem step (hs : Mirrors s t) {a : Action Id m Word}
    (h : s.step a = some s') :
    exists t', t.step (newestAction t a) = some t' ∧ Mirrors s' t' := by
  cases a with
  | writeCall value => exact hs.writeCall h
  | writeStoreOdd => exact hs.writeStoreOdd h
  | writeFence => exact hs.writeFence h
  | writeWord w => exact hs.writeWord h
  | writeStoreEven => exact hs.writeStoreEven h
  | read i a =>
      cases a with
      | call => exact hs.readCall h
      | loadSeq => exact hs.readLoadSeq h
      | loadWord w => exact hs.readLoadWord h
      | fence => exact hs.readFence h

end Mirrors

/-- Every interleaving is an execution under weak memory. -/
theorem interleaving_reachable [DecidableEq Id] {initialValue : Payload m Word}
    {s : System Id m Word} (hs : (machine Id initialValue).Reachable s) :
    exists t, (viewMachine Id initialValue).Reachable t ∧ Mirrors s t :=
  hs.simulate (Mirrors.new Id initialValue) (fun _ a _ t hrel h =>
    ⟨Mirrors.newestAction t a, hrel.step h⟩)

end Seqlock
end LowLatency
