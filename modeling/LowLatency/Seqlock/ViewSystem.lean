import LowLatency.Foundation.Machine
import LowLatency.Foundation.ViewMemory
import LowLatency.Seqlock.Lock

/-!
# The seqlock under weak memory

`write` and `read` run on store histories with the orderings of the code.  The
words of the payload are relaxed locations of their own.
-/

namespace LowLatency
namespace Seqlock

open Foundation

inductive Location (m : Nat) where
  | seq
  | word (i : Fin m)
deriving DecidableEq, Repr

abbrev Location.Val {m : Nat} (Word : Type) : Location m -> Type
  | seq => BitVec 64
  | word _ => Word

inductive ViewReadAction (m : Nat) where
  | call
  | loadSeq (k : Nat)
  | loadWord (w : Fin m) (u : Nat)
  | fence
deriving DecidableEq, Repr

inductive ViewAction (Id : Type _) (m : Nat) (Word : Type) where
  | writeCall (value : Payload m Word) (k : Nat)
  | writeStoreOdd
  | writeFence
  | writeWord (w : Fin m)
  | writeStoreEven
  | read (i : Id) (a : ViewReadAction m)

def ViewAction.written? {Id : Type _} {m : Nat} {Word : Type} :
    ViewAction Id m Word -> Option (Payload m Word)
  | writeCall value _ => some value
  | _ => none

def ViewAction.writes {Id : Type _} {m : Nat} {Word : Type}
    (actions : List (ViewAction Id m Word)) : List (Payload m Word) :=
  actions.filterMap written?

/-- `seqIndex` is history: the store of `seq` that `s1` was read from. -/
structure ViewReader (m : Nat) (Word : Type) where
  pc : ReadPc m Word
  view : ThreadView (Location m)
  seqIndex : Nat

/-- A finished `read`, with the version that `s1` belongs to. -/
structure ViewRecord (Id : Type _) (m : Nat) (Word : Type) where
  reader : Id
  value : Payload m Word
  version : Nat

/-- `versions` and `returns` are history, as is `completed`. -/
structure ViewSystem (Id : Type _) (m : Nat) (Word : Type) where
  memory : ViewMemory (Location m) (Location.Val Word)
  writer : ThreadView (Location m)
  writePc : WritePc m Word
  readers : Id -> ViewReader m Word
  versions : List (Payload m Word)
  completed : Nat
  returns : List (ViewRecord Id m Word)

namespace ViewSystem

variable {Id : Type _} {m : Nat} {Word : Type}

def initialVal (initialValue : Payload m Word) :
    (loc : Location m) -> Location.Val Word loc
  | Location.seq => 0#64
  | Location.word w => initialValue w

def new (Id : Type _) {m : Nat} {Word : Type} (initialValue : Payload m Word) :
    ViewSystem Id m Word where
  memory := ViewMemory.init (initialVal initialValue)
  writer := ThreadView.start (Location m)
  writePc := WritePc.idle
  readers := fun _ => ⟨ReadPc.idle, ThreadView.start (Location m), 0⟩
  versions := [initialValue]
  completed := 0
  returns := []

/-!
## Steps of the writer
-/

/-- The relaxed load of `seq`. -/
def writeCall (s : ViewSystem Id m Word) (value : Payload m Word) (k : Nat) :
    Option (ViewSystem Id m Word) :=
  match s.writePc, s.memory.load? s.writer.current Location.seq k with
  | WritePc.idle, some msg =>
      some { s with
        writer := s.writer.loadRelaxed Location.seq k msg
        writePc := WritePc.storeOdd msg.value value
        versions := s.versions ++ [value] }
  | _, _ => none

def writeStoreOdd (s : ViewSystem Id m Word) : Option (ViewSystem Id m Word) :=
  match s.writePc with
  | WritePc.storeOdd s₀ value =>
      let (memory, writer) :=
        s.memory.storeRelaxed s.writer Location.seq (s₀ + 1#64)
      some { s with
        memory := memory
        writer := writer
        writePc := WritePc.releaseFence s₀ value }
  | _ => none

def writeFence (s : ViewSystem Id m Word) : Option (ViewSystem Id m Word) :=
  match s.writePc with
  | WritePc.releaseFence s₀ value =>
      some { s with
        writer := s.writer.fenceRelease
        writePc := WritePc.writeData s₀ value (fun _ => false) }
  | _ => none

def writeWord (s : ViewSystem Id m Word) (w : Fin m) :
    Option (ViewSystem Id m Word) :=
  match s.writePc with
  | WritePc.writeData s₀ value written =>
      if written w then none
      else
        let (memory, writer) :=
          s.memory.storeRelaxed s.writer (Location.word w) (value w)
        some { s with
          memory := memory
          writer := writer
          writePc :=
            WritePc.writeData s₀ value (Function.update written w true) }
  | _ => none

def writeStoreEven (s : ViewSystem Id m Word) :
    Option (ViewSystem Id m Word) :=
  match s.writePc with
  | WritePc.writeData s₀ _ written =>
      if forall w, written w = true then
        let (memory, writer) :=
          s.memory.storeRelease s.writer Location.seq (s₀ + 2#64)
        some { s with
          memory := memory
          writer := writer
          writePc := WritePc.idle
          completed := s.completed + 1 }
      else none
  | _ => none

/-!
## Steps of the readers
-/

/-- After a load of `seq`: `s1` is an acquire load, `s2` a relaxed one. -/
def afterSeq (r : ViewReader m Word) (pc : ReadPc m Word) (k : Nat)
    (msg : Message (Location m) (BitVec 64)) : ViewReader m Word :=
  match r.pc with
  | ReadPc.loadSeq => ⟨pc, r.view.loadAcquire Location.seq k msg, k⟩
  | _ => ⟨pc, r.view.loadRelaxed Location.seq k msg, r.seqIndex⟩

variable [DecidableEq Id]

def setReader (s : ViewSystem Id m Word) (i : Id) (r : ViewReader m Word) :
    ViewSystem Id m Word :=
  { s with readers := Function.update s.readers i r }

theorem setReader_self (s : ViewSystem Id m Word) (i : Id)
    (r : ViewReader m Word) : (s.setReader i r).readers i = r :=
  Function.update_self _ _ _

theorem setReader_of_ne (s : ViewSystem Id m Word) {i j : Id} (h : j ≠ i)
    (r : ViewReader m Word) : (s.setReader i r).readers j = s.readers j :=
  Function.update_of_ne h _ _

def readCall (s : ViewSystem Id m Word) (i : Id) :
    Option (ViewSystem Id m Word) :=
  let r := s.readers i
  r.pc.call.map (fun pc => s.setReader i { r with pc := pc })

def readLoadSeq (s : ViewSystem Id m Word) (i : Id) (k : Nat) :
    Option (ViewSystem Id m Word) :=
  let r := s.readers i
  match s.memory.load? r.view.current Location.seq k with
  | none => none
  | some msg =>
      match r.pc.gotSeq msg.value with
      | none => none
      | some (pc, none) => some (s.setReader i (afterSeq r pc k msg))
      | some (pc, some v) =>
          some { s.setReader i (afterSeq r pc k msg) with
            returns := s.returns ++ [⟨i, v, r.seqIndex / 2⟩] }

def readLoadWord (s : ViewSystem Id m Word) (i : Id) (w : Fin m) (u : Nat) :
    Option (ViewSystem Id m Word) :=
  let r := s.readers i
  match s.memory.load? r.view.current (Location.word w) u with
  | none => none
  | some msg =>
      (r.pc.gotWord w msg.value).map (fun pc =>
        s.setReader i { r with
          pc := pc
          view := r.view.loadRelaxed (Location.word w) u msg })

def readFence (s : ViewSystem Id m Word) (i : Id) :
    Option (ViewSystem Id m Word) :=
  let r := s.readers i
  r.pc.fence.map (fun pc =>
    s.setReader i { r with pc := pc, view := r.view.fenceAcquire })

def read (s : ViewSystem Id m Word) (i : Id) :
    ViewReadAction m -> Option (ViewSystem Id m Word)
  | ViewReadAction.call => s.readCall i
  | ViewReadAction.loadSeq k => s.readLoadSeq i k
  | ViewReadAction.loadWord w u => s.readLoadWord i w u
  | ViewReadAction.fence => s.readFence i

def step (s : ViewSystem Id m Word) :
    ViewAction Id m Word -> Option (ViewSystem Id m Word)
  | ViewAction.writeCall value k => s.writeCall value k
  | ViewAction.writeStoreOdd => s.writeStoreOdd
  | ViewAction.writeFence => s.writeFence
  | ViewAction.writeWord w => s.writeWord w
  | ViewAction.writeStoreEven => s.writeStoreEven
  | ViewAction.read i a => s.read i a

end ViewSystem

def viewMachine (Id : Type _) [DecidableEq Id] {m : Nat} {Word : Type}
    (initialValue : Payload m Word) :
    Machine (ViewSystem Id m Word) (ViewAction Id m Word) where
  start := ViewSystem.new Id initialValue
  step := ViewSystem.step

/-!
## What each step does
-/

namespace ViewSystem

variable {Id : Type _} {m : Nat} {Word : Type}
variable {s s' : ViewSystem Id m Word}

theorem writeCall_inv {value : Payload m Word} {k : Nat}
    (h : s.writeCall value k = some s') :
    exists msg, s.writePc = WritePc.idle ∧
      s.memory.load? s.writer.current Location.seq k = some msg ∧
      s' = { s with
        writer := s.writer.loadRelaxed Location.seq k msg
        writePc := WritePc.storeOdd msg.value value
        versions := s.versions ++ [value] } := by
  unfold writeCall at h
  split at h
  · rename_i msg hpc hload
    exact ⟨msg, hpc, hload, (Option.some.inj h).symm⟩
  · cases h

theorem writeStoreOdd_inv (h : s.writeStoreOdd = some s') :
    exists s₀ value, s.writePc = WritePc.storeOdd s₀ value ∧
      s' = { s with
        memory :=
          (s.memory.storeRelaxed s.writer Location.seq (s₀ + 1#64)).1
        writer :=
          (s.memory.storeRelaxed s.writer Location.seq (s₀ + 1#64)).2
        writePc := WritePc.releaseFence s₀ value } := by
  unfold writeStoreOdd at h
  split at h
  · rename_i s₀ value hpc
    exact ⟨s₀, value, hpc, (Option.some.inj h).symm⟩
  · cases h

theorem writeFence_inv (h : s.writeFence = some s') :
    exists s₀ value, s.writePc = WritePc.releaseFence s₀ value ∧
      s' = { s with
        writer := s.writer.fenceRelease
        writePc := WritePc.writeData s₀ value (fun _ => false) } := by
  unfold writeFence at h
  split at h
  · rename_i s₀ value hpc
    exact ⟨s₀, value, hpc, (Option.some.inj h).symm⟩
  · cases h

theorem writeWord_inv {w : Fin m} (h : s.writeWord w = some s') :
    exists s₀ value written,
      s.writePc = WritePc.writeData s₀ value written ∧
      written w = false ∧
      s' = { s with
        memory := (s.memory.storeRelaxed s.writer (Location.word w)
          (value w)).1
        writer := (s.memory.storeRelaxed s.writer (Location.word w)
          (value w)).2
        writePc :=
          WritePc.writeData s₀ value (Function.update written w true) } := by
  unfold writeWord at h
  split at h
  · rename_i s₀ value written hpc
    split at h
    · cases h
    · rename_i hwritten
      exact ⟨s₀, value, written, hpc, Bool.eq_false_iff.mpr hwritten,
        (Option.some.inj h).symm⟩
  · cases h

theorem writeStoreEven_inv (h : s.writeStoreEven = some s') :
    exists s₀ value written,
      s.writePc = WritePc.writeData s₀ value written ∧
      (forall w, written w = true) ∧
      s' = { s with
        memory :=
          (s.memory.storeRelease s.writer Location.seq (s₀ + 2#64)).1
        writer :=
          (s.memory.storeRelease s.writer Location.seq (s₀ + 2#64)).2
        writePc := WritePc.idle
        completed := s.completed + 1 } := by
  unfold writeStoreEven at h
  split at h
  · rename_i s₀ value written hpc
    split at h
    · rename_i hall
      exact ⟨s₀, value, written, hpc, hall, (Option.some.inj h).symm⟩
    · cases h
  · cases h

structure Advances (s s' : ViewSystem Id m Word)
    (a : ViewAction Id m Word) : Prop where
  versions : s'.versions = s.versions ++ a.written?.toList
  completed : s.completed ≤ s'.completed
  readers : (forall i b, a ≠ ViewAction.read i b) -> s'.readers = s.readers
  returns : (forall i b, a ≠ ViewAction.read i b) -> s'.returns = s.returns

theorem Advances.version {a : ViewAction Id m Word} (ha : Advances s s' a)
    (u : Nat) (v : Payload m Word) (hget : s.versions[u]? = some v) :
    s'.versions[u]? = some v := by
  rw [ha.versions]
  exact getElem?_append_of_eq_some hget _

variable [DecidableEq Id] {i : Id}

theorem readCall_inv (h : s.readCall i = some s') :
    (s.readers i).pc = ReadPc.idle ∧
      s' = s.setReader i { s.readers i with pc := ReadPc.loadSeq } := by
  rcases Option.map_eq_some_iff.mp h with ⟨pc, hcall, hs'⟩
  rcases ReadPc.call_inv hcall with ⟨hpc, rfl⟩
  exact ⟨hpc, hs'.symm⟩

theorem readLoadSeq_inv {k : Nat} (h : s.readLoadSeq i k = some s') :
    exists msg pc out,
      s.memory.load? (s.readers i).view.current Location.seq k = some msg ∧
      (s.readers i).pc.gotSeq msg.value = some (pc, out) ∧
      ((out = none ∧
          s' = s.setReader i (afterSeq (s.readers i) pc k msg)) ∨
        (exists v, out = some v ∧
          s' = { s.setReader i (afterSeq (s.readers i) pc k msg) with
            returns := s.returns ++
              [⟨i, v, (s.readers i).seqIndex / 2⟩] })) := by
  unfold readLoadSeq at h
  dsimp only at h
  split at h
  · cases h
  · rename_i msg hload
    split at h
    · cases h
    · rename_i pc hgot
      exact ⟨msg, pc, none, hload, hgot,
        Or.inl ⟨rfl, (Option.some.inj h).symm⟩⟩
    · rename_i pc v hgot
      exact ⟨msg, pc, some v, hload, hgot,
        Or.inr ⟨v, rfl, (Option.some.inj h).symm⟩⟩

theorem readLoadWord_inv {w : Fin m} {u : Nat}
    (h : s.readLoadWord i w u = some s') :
    exists msg pc,
      s.memory.load? (s.readers i).view.current (Location.word w) u =
        some msg ∧
      (s.readers i).pc.gotWord w msg.value = some pc ∧
      s' = s.setReader i { s.readers i with
        pc := pc
        view :=
          (s.readers i).view.loadRelaxed (Location.word w) u msg } := by
  unfold readLoadWord at h
  dsimp only at h
  split at h
  · cases h
  · rename_i msg hload
    rcases Option.map_eq_some_iff.mp h with ⟨pc, hgot, hs'⟩
    exact ⟨msg, pc, hload, hgot, hs'.symm⟩

theorem readFence_inv (h : s.readFence i = some s') :
    exists pc, (s.readers i).pc.fence = some pc ∧
      s' = s.setReader i { s.readers i with
        pc := pc
        view := (s.readers i).view.fenceAcquire } := by
  rcases Option.map_eq_some_iff.mp h with ⟨pc, hfence, hs'⟩
  exact ⟨pc, hfence, hs'.symm⟩

theorem read_eq {a : ViewReadAction m} (h : s.read i a = some s') :
    exists r returns, s' = { s.setReader i r with returns := returns } := by
  cases a with
  | call =>
      rcases readCall_inv h with ⟨_, rfl⟩
      exact ⟨_, s.returns, rfl⟩
  | loadSeq k =>
      rcases readLoadSeq_inv h with ⟨_, _, _, _, _, ⟨_, rfl⟩ | ⟨_, _, rfl⟩⟩
      · exact ⟨_, s.returns, rfl⟩
      · exact ⟨_, _, rfl⟩
  | loadWord w u =>
      rcases readLoadWord_inv h with ⟨_, _, _, _, rfl⟩
      exact ⟨_, s.returns, rfl⟩
  | fence =>
      rcases readFence_inv h with ⟨_, _, rfl⟩
      exact ⟨_, s.returns, rfl⟩

theorem step_advances {a : ViewAction Id m Word} (h : s.step a = some s') :
    Advances s s' a := by
  cases a with
  | writeCall value k =>
      rcases writeCall_inv h with ⟨_, _, _, rfl⟩
      exact ⟨rfl, Nat.le_refl _, fun _ => rfl, fun _ => rfl⟩
  | writeStoreOdd =>
      rcases writeStoreOdd_inv h with ⟨_, _, _, rfl⟩
      exact ⟨(List.append_nil _).symm, Nat.le_refl _, fun _ => rfl, fun _ => rfl⟩
  | writeFence =>
      rcases writeFence_inv h with ⟨_, _, _, rfl⟩
      exact ⟨(List.append_nil _).symm, Nat.le_refl _, fun _ => rfl, fun _ => rfl⟩
  | writeWord w =>
      rcases writeWord_inv h with ⟨_, _, _, _, _, rfl⟩
      exact ⟨(List.append_nil _).symm, Nat.le_refl _, fun _ => rfl, fun _ => rfl⟩
  | writeStoreEven =>
      rcases writeStoreEven_inv h with ⟨_, _, _, _, _, rfl⟩
      exact ⟨(List.append_nil _).symm, Nat.le_succ _, fun _ => rfl, fun _ => rfl⟩
  | read i b =>
      rcases read_eq h with ⟨_, _, rfl⟩
      exact ⟨(List.append_nil _).symm, Nat.le_refl _,
        fun hne => absurd rfl (hne i b), fun hne => absurd rfl (hne i b)⟩

theorem runFrom_versions {initialValue : Payload m Word}
    {actions : List (ViewAction Id m Word)}
    (hrun : (viewMachine Id initialValue).runFrom s actions = some s') :
    s'.versions = s.versions ++ ViewAction.writes actions := by
  induction actions generalizing s with
  | nil =>
      cases hrun
      exact (List.append_nil _).symm
  | cons a rest ih =>
      rcases Machine.runFrom_cons_inv hrun with ⟨mid, ha, hrest⟩
      rw [ih hrest, (step_advances ha).versions, List.append_assoc]
      congr 1
      cases hwritten : a.written? with
      | none => rw [ViewAction.writes, ViewAction.writes,
          List.filterMap_cons_none hwritten, Option.toList_none,
          List.nil_append]
      | some v => rw [ViewAction.writes, ViewAction.writes,
          List.filterMap_cons_some hwritten, Option.toList_some,
          List.singleton_append]

end ViewSystem
end Seqlock
end LowLatency
