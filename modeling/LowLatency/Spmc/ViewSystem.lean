import LowLatency.Foundation.Machine
import LowLatency.Foundation.ViewMemory
import LowLatency.Spmc.System

/-!
# The ring under weak memory

The same producer and consumers run on store histories.  A load of
`write_cursor` or of a `seq` may return any store that the acquire loads of the
consumer have not excluded.  The second load of `seq` is relaxed and excludes
nothing, and a word of the payload may come back as anything, so the relation
has at least the executions of the code.
-/

namespace LowLatency
namespace Spmc

open Foundation

inductive Location {W : Nat} (cap : Capacity W) where
  | writeCursor
  | seq (j : Fin cap.size)
deriving DecidableEq

theorem Location.writeCursor_ne_seq {W : Nat} {cap : Capacity W}
    (j : Fin cap.size) : Location.writeCursor ≠ Location.seq j := by
  intro h
  cases h

structure ViewReader {W : Nat} (cap : Capacity W) (m : Nat)
    (Word : Type _) where
  reader : Reader W m Word
  view : View (Location cap)

/-- The next step of a `try_read`, with the index of the store that it reads. -/
inductive ViewReadAction (m : Nat) (Word : Type _) where
  | call
  | loadWriteCursor (n : Nat)
  | loadSeq (k : Nat)
  | loadWord (i : Fin m) (word : Word)

inductive ViewAction (m : Nat) (Word : Type _) where
  | publishCall (value : Payload m Word) (n : Nat)
  | publishStoreOdd
  | publishWriteWord (i : Fin m)
  | publishStoreEven
  | publishStoreCursor
  | read (c : Nat) (a : ViewReadAction m Word)
  | clone (parent child : Nat)

structure ViewSystem {W : Nat} (cap : Capacity W) (m : Nat)
    (Word : Type _) where
  memory : ViewMemory (Location cap) (fun _ => BitVec W)
  producer : ThreadView (Location cap)
  publishPc : PublishPc W m Word
  readers : Nat -> Option (ViewReader cap m Word)
  published : List (Payload m Word)

namespace ViewSystem

variable {W : Nat} {cap : Capacity W} {m : Nat} {Word : Type _}

def new (cap : Capacity W) (m : Nat) (Word : Type _) :
    ViewSystem cap m Word where
  memory := ViewMemory.init (fun _ => 0#W)
  producer := ThreadView.start (Location cap)
  publishPc := PublishPc.idle
  readers := Function.update (fun _ => none) 0
    (some ⟨Reader.new W m Word, View.bottom (Location cap)⟩)
  published := []

def completed (s : ViewSystem cap m Word) : Nat :=
  (s.memory Location.writeCursor).lastIndex

def progress (s : ViewSystem cap m Word) : Progress where
  begun := s.published.length
  stamped := s.completed + s.publishPc.stamped
  completed := s.completed

/-!
## Steps of the producer
-/

def publishCall (s : ViewSystem cap m Word) (value : Payload m Word) (n : Nat) :
    Option (ViewSystem cap m Word) :=
  match s.publishPc,
    s.memory.load? s.producer.current Location.writeCursor n with
  | PublishPc.idle, some wPos =>
      some { s with
        producer := s.producer.loadRelaxed Location.writeCursor n wPos
        publishPc := PublishPc.storeOdd wPos.value value
        published := s.published ++ [value] }
  | _, _ => none

/-- The relaxed odd store and the release fence after it. -/
def publishStoreOdd (s : ViewSystem cap m Word) :
    Option (ViewSystem cap m Word) :=
  match s.publishPc with
  | PublishPc.storeOdd wPos value =>
      let seqNo := wPos * 2#W
      let (memory, producer) := s.memory.storeRelaxed s.producer
        (Location.seq (cap.slotIndex wPos)) (seqNo + 1#W)
      some { s with
        memory := memory
        producer := producer.fenceRelease
        publishPc := PublishPc.writeData wPos value (fun _ => false) }
  | _ => none

def publishWriteWord (s : ViewSystem cap m Word) (i : Fin m) :
    Option (ViewSystem cap m Word) :=
  match s.publishPc with
  | PublishPc.writeData wPos value written =>
      if written i then none
      else
        some { s with
          publishPc :=
            PublishPc.writeData wPos value
              (Function.update written i true) }
  | _ => none

def publishStoreEven (s : ViewSystem cap m Word) :
    Option (ViewSystem cap m Word) :=
  match s.publishPc with
  | PublishPc.writeData wPos _ written =>
      if forall i, written i = true then
        let seqNo := wPos * 2#W
        let (memory, producer) := s.memory.storeRelease s.producer
          (Location.seq (cap.slotIndex wPos)) (seqNo + 2#W)
        some { s with
          memory := memory
          producer := producer
          publishPc := PublishPc.storeCursor wPos }
      else none
  | _ => none

def publishStoreCursor (s : ViewSystem cap m Word) :
    Option (ViewSystem cap m Word) :=
  match s.publishPc with
  | PublishPc.storeCursor wPos =>
      let (memory, producer) := s.memory.storeRelease s.producer
        Location.writeCursor (wPos + 1#W)
      some { s with
        memory := memory
        producer := producer
        publishPc := PublishPc.idle }
  | _ => none

/-!
## Steps of the consumers
-/

def acquire (view : View (Location cap)) (loc : Location cap) (i : Nat)
    (msg : Message (Location cap) (BitVec W)) : View (Location cap) :=
  view ⊔ (View.single loc i ⊔ msg.view)

/-- The first load of `seq` is an acquire load, the second one is relaxed. -/
def afterSeq (r : ViewReader cap m Word) (loc : Location cap) (k : Nat)
    (msg : Message (Location cap) (BitVec W)) : View (Location cap) :=
  match r.reader.thread.pc with
  | ReadPc.loadSeq => acquire r.view loc k msg
  | _ => r.view

def readStep (s : ViewSystem cap m Word) (r : ViewReader cap m Word) :
    ViewReadAction m Word -> Option (ViewReader cap m Word)
  | ViewReadAction.call =>
      (r.reader.beginCall s.progress).map (fun reader => ⟨reader, r.view⟩)
  | ViewReadAction.loadWriteCursor n =>
      match s.memory.load? r.view Location.writeCursor n with
      | none => none
      | some msg =>
          (r.reader.gotWriteCursor s.progress n msg.value).map (fun reader =>
            ⟨reader, acquire r.view Location.writeCursor n msg⟩)
  | ViewReadAction.loadSeq k =>
      let loc := Location.seq (r.reader.thread.state.slot cap)
      match s.memory.load? r.view loc k with
      | none => none
      | some msg =>
          (r.reader.gotSeq s.progress msg.value).map (fun reader =>
            ⟨reader, afterSeq r loc k msg⟩)
  | ViewReadAction.loadWord i word =>
      (r.reader.gotWord i word).map (fun reader => ⟨reader, r.view⟩)

def setReader (s : ViewSystem cap m Word) (c : Nat)
    (r : ViewReader cap m Word) : ViewSystem cap m Word :=
  { s with readers := Function.update s.readers c (some r) }

def read (s : ViewSystem cap m Word) (c : Nat) (a : ViewReadAction m Word) :
    Option (ViewSystem cap m Word) :=
  match s.readers c with
  | some r => (s.readStep r a).map (s.setReader c)
  | none => none

def clone (s : ViewSystem cap m Word) (parent child : Nat) :
    Option (ViewSystem cap m Word) :=
  match s.readers parent, s.readers child with
  | some r, none =>
      r.reader.clone.map (fun reader => s.setReader child ⟨reader, r.view⟩)
  | _, _ => none

def step (s : ViewSystem cap m Word) :
    ViewAction m Word -> Option (ViewSystem cap m Word)
  | ViewAction.publishCall value n => s.publishCall value n
  | ViewAction.publishStoreOdd => s.publishStoreOdd
  | ViewAction.publishWriteWord i => s.publishWriteWord i
  | ViewAction.publishStoreEven => s.publishStoreEven
  | ViewAction.publishStoreCursor => s.publishStoreCursor
  | ViewAction.read c a => s.read c a
  | ViewAction.clone parent child => s.clone parent child

/-!
## What each step does
-/

variable {s s' : ViewSystem cap m Word}

theorem publishCall_inv {value : Payload m Word} {n : Nat}
    (h : s.publishCall value n = some s') :
    exists wPos, s.publishPc = PublishPc.idle ∧
      s.memory.load? s.producer.current Location.writeCursor n = some wPos ∧
      s' = { s with
        producer := s.producer.loadRelaxed Location.writeCursor n wPos
        publishPc := PublishPc.storeOdd wPos.value value
        published := s.published ++ [value] } := by
  unfold publishCall at h
  split at h
  · rename_i wPos hpc hload
    exact ⟨wPos, hpc, hload, (Option.some.inj h).symm⟩
  · cases h

theorem publishStoreOdd_inv (h : s.publishStoreOdd = some s') :
    exists wPos value, s.publishPc = PublishPc.storeOdd wPos value ∧
      s' = { s with
        memory := (s.memory.storeRelaxed s.producer
          (Location.seq (cap.slotIndex wPos)) (wPos * 2#W + 1#W)).1
        producer := (s.memory.storeRelaxed s.producer
          (Location.seq (cap.slotIndex wPos))
            (wPos * 2#W + 1#W)).2.fenceRelease
        publishPc := PublishPc.writeData wPos value (fun _ => false) } := by
  unfold publishStoreOdd at h
  split at h
  · rename_i wPos value hpc
    exact ⟨wPos, value, hpc, (Option.some.inj h).symm⟩
  · cases h

theorem publishWriteWord_inv {i : Fin m}
    (h : s.publishWriteWord i = some s') :
    exists wPos value written,
      s.publishPc = PublishPc.writeData wPos value written ∧
      s' = { s with
        publishPc :=
          PublishPc.writeData wPos value
            (Function.update written i true) } := by
  unfold publishWriteWord at h
  split at h
  · rename_i wPos value written hpc
    split at h
    · cases h
    · exact ⟨wPos, value, written, hpc, (Option.some.inj h).symm⟩
  · cases h

theorem publishStoreEven_inv (h : s.publishStoreEven = some s') :
    exists wPos value written,
      s.publishPc = PublishPc.writeData wPos value written ∧
      s' = { s with
        memory := (s.memory.storeRelease s.producer
          (Location.seq (cap.slotIndex wPos)) (wPos * 2#W + 2#W)).1
        producer := (s.memory.storeRelease s.producer
          (Location.seq (cap.slotIndex wPos)) (wPos * 2#W + 2#W)).2
        publishPc := PublishPc.storeCursor wPos } := by
  unfold publishStoreEven at h
  split at h
  · rename_i wPos value written hpc
    split at h
    · exact ⟨wPos, value, written, hpc, (Option.some.inj h).symm⟩
    · cases h
  · cases h

theorem publishStoreCursor_inv (h : s.publishStoreCursor = some s') :
    exists wPos, s.publishPc = PublishPc.storeCursor wPos ∧
      s' = { s with
        memory := (s.memory.storeRelease s.producer
          Location.writeCursor (wPos + 1#W)).1
        producer := (s.memory.storeRelease s.producer
          Location.writeCursor (wPos + 1#W)).2
        publishPc := PublishPc.idle } := by
  unfold publishStoreCursor at h
  split at h
  · rename_i wPos hpc
    exact ⟨wPos, hpc, (Option.some.inj h).symm⟩
  · cases h

theorem read_inv {c : Nat} {a : ViewReadAction m Word}
    (h : s.read c a = some s') :
    exists r r', s.readers c = some r ∧ s.readStep r a = some r' ∧
      s' = s.setReader c r' := by
  unfold read at h
  split at h
  · rename_i r hr
    rcases Option.map_eq_some_iff.mp h with ⟨r', hstep, hs'⟩
    exact ⟨r, r', hr, hstep, hs'.symm⟩
  · cases h

theorem clone_inv {parent child : Nat} (h : s.clone parent child = some s') :
    exists r reader, s.readers parent = some r ∧
      s.readers child = none ∧ r.reader.clone = some reader ∧
      s' = s.setReader child ⟨reader, r.view⟩ := by
  unfold clone at h
  split at h
  · rename_i r hr hnone
    rcases Option.map_eq_some_iff.mp h with ⟨reader, hclone, hs'⟩
    exact ⟨r, reader, hr, hnone, hclone, hs'.symm⟩
  · cases h

theorem loadWriteCursor_inv {r r' : ViewReader cap m Word} {n : Nat}
    (h : s.readStep r (ViewReadAction.loadWriteCursor n) = some r') :
    exists msg reader,
      s.memory.load? r.view Location.writeCursor n = some msg ∧
      r.reader.gotWriteCursor s.progress n msg.value = some reader ∧
      r' = ⟨reader, acquire r.view Location.writeCursor n msg⟩ := by
  simp only [readStep] at h
  split at h
  · cases h
  · rename_i msg hload
    rcases Option.map_eq_some_iff.mp h with ⟨reader, hgot, hr'⟩
    exact ⟨msg, reader, hload, hgot, hr'.symm⟩

theorem loadSeq_inv {r r' : ViewReader cap m Word} {k : Nat}
    (h : s.readStep r (ViewReadAction.loadSeq k) = some r') :
    exists msg reader,
      s.memory.load? r.view
        (Location.seq (r.reader.thread.state.slot cap)) k = some msg ∧
      r.reader.gotSeq s.progress msg.value = some reader ∧
      r' = ⟨reader,
        afterSeq r (Location.seq (r.reader.thread.state.slot cap)) k msg⟩ := by
  simp only [readStep] at h
  split at h
  · cases h
  · rename_i msg hload
    rcases Option.map_eq_some_iff.mp h with ⟨reader, hgot, hr'⟩
    exact ⟨msg, reader, hload, hgot, hr'.symm⟩

theorem readers_setReader {c d : Nat} {r r' : ViewReader cap m Word}
    (h : (s.setReader c r').readers d = some r) :
    (d = c ∧ r = r') ∨ s.readers d = some r :=
  new_or_old_of_update h

theorem step_readers {a : ViewAction m Word} (h : s.step a = some s') {c : Nat}
    {r' : ViewReader cap m Word} (hr' : s'.readers c = some r') :
    s.readers c = some r' ∨
    (exists r b, s.readers c = some r ∧ s.readStep r b = some r') ∨
    (exists parent r reader, s.readers parent = some r ∧
      s.readers c = none ∧ r.reader.clone = some reader ∧
      r' = ⟨reader, r.view⟩) := by
  cases a with
  | publishCall value n =>
      rcases publishCall_inv h with ⟨_, _, _, rfl⟩
      exact Or.inl hr'
  | publishStoreOdd =>
      rcases publishStoreOdd_inv h with ⟨_, _, _, rfl⟩
      exact Or.inl hr'
  | publishWriteWord i =>
      rcases publishWriteWord_inv h with ⟨_, _, _, _, rfl⟩
      exact Or.inl hr'
  | publishStoreEven =>
      rcases publishStoreEven_inv h with ⟨_, _, _, _, rfl⟩
      exact Or.inl hr'
  | publishStoreCursor =>
      rcases publishStoreCursor_inv h with ⟨_, _, rfl⟩
      exact Or.inl hr'
  | read d b =>
      rcases read_inv h with ⟨r, r₁, hr, hstep, rfl⟩
      rcases readers_setReader hr' with ⟨rfl, rfl⟩ | hold
      · exact Or.inr (Or.inl ⟨r, b, hr, hstep⟩)
      · exact Or.inl hold
  | clone parent child =>
      rcases clone_inv h with ⟨r, reader, hr, hnone, hclone, rfl⟩
      rcases readers_setReader hr' with ⟨rfl, rfl⟩ | hold
      · exact Or.inr (Or.inr ⟨parent, r, reader, hr, hnone, hclone, rfl⟩)
      · exact Or.inl hold

theorem readers_new {c : Nat} {r : ViewReader cap m Word}
    (h : (new cap m Word).readers c = some r) :
    r = ⟨Reader.new W m Word, View.bottom (Location cap)⟩ := by
  simp only [new] at h
  rcases new_or_old_of_update h with ⟨_, hr⟩ | hnone
  · exact hr
  · cases hnone

end ViewSystem

def viewMachine {W : Nat} (cap : Capacity W) (m : Nat) (Word : Type _) :
    Machine (ViewSystem cap m Word) (ViewAction m Word) where
  start := ViewSystem.new cap m Word
  step := ViewSystem.step

end Spmc
end LowLatency
