import LowLatency.Foundation.Machine
import LowLatency.Spmc.Reader

/-!
# Interleaved producer and consumers

One producer publishes into the ring while any number of consumers read from
it.  Every load and store is a step of its own, a payload is written and read
one word at a time in any order, and a consumer may be cloned between its
calls.  Loads return the current value.
-/

namespace LowLatency
namespace Spmc

open Foundation

/-- Where `publish` stands; the words named by `written` are already stored. -/
inductive PublishPc (W m : Nat) (Word : Type _) where
  | idle
  | storeOdd (wPos : BitVec W) (value : Payload m Word)
  | writeData (wPos : BitVec W) (value : Payload m Word)
      (written : Fin m -> Bool)
  | storeCursor (wPos : BitVec W)

namespace PublishPc

variable {W m : Nat} {Word : Type _}

def begun : PublishPc W m Word -> Nat
  | idle => 0
  | _ => 1

def opened : PublishPc W m Word -> Nat
  | writeData _ _ _ => 1
  | storeCursor _ => 1
  | _ => 0

def stamped : PublishPc W m Word -> Nat
  | storeCursor _ => 1
  | _ => 0

theorem stamped_le_opened (pc : PublishPc W m Word) : pc.stamped ≤ pc.opened := by
  cases pc <;> simp [stamped, opened]

theorem opened_le_begun (pc : PublishPc W m Word) : pc.opened ≤ pc.begun := by
  cases pc <;> simp [opened, begun]

theorem opened_le_one (pc : PublishPc W m Word) : pc.opened ≤ 1 := by
  cases pc <;> simp [opened]

end PublishPc

inductive ReadAction (m : Nat) where
  | call
  | loadWriteCursor
  | loadSeq
  | loadWord (i : Fin m)
deriving DecidableEq, Repr

inductive Action (m : Nat) (Word : Type _) where
  | publishCall (value : Payload m Word)
  | publishStoreOdd
  | publishWriteWord (i : Fin m)
  | publishStoreEven
  | publishStoreCursor
  | read (c : Nat) (a : ReadAction m)
  | clone (parent child : Nat)

/-!
## State

`published` and `completed` are history: the values of all publishes begun so
far, and the number of publishes that have stored `write_cursor`.
-/

structure System {W : Nat} (cap : Capacity W) (m : Nat) (Word : Type _) where
  queue : Queue cap m Word
  publishPc : PublishPc W m Word
  readers : Nat -> Option (Reader W m Word)
  published : List (Payload m Word)
  completed : Nat

namespace System

variable {W : Nat} {cap : Capacity W} {m : Nat} {Word : Type _}

/-- The state after `spmc::new`: one consumer, number `0`. -/
def new (cap : Capacity W) (m : Nat) (Word : Type _) [Zero Word] :
    System cap m Word where
  queue := Queue.new cap m Word
  publishPc := PublishPc.idle
  readers := Function.update (fun _ => none) 0 (some (Reader.new W m Word))
  published := []
  completed := 0

def opened (s : System cap m Word) : Nat :=
  s.completed + s.publishPc.opened

def stamped (s : System cap m Word) : Nat :=
  s.completed + s.publishPc.stamped

theorem stamped_le_opened (s : System cap m Word) : s.stamped ≤ s.opened :=
  Nat.add_le_add_left s.publishPc.stamped_le_opened _

theorem completed_le_stamped (s : System cap m Word) :
    s.completed ≤ s.stamped :=
  Nat.le_add_right _ _

def progress (s : System cap m Word) : Progress where
  begun := s.published.length
  stamped := s.stamped
  completed := s.completed

/-!
## Steps of the producer
-/

/-- The start of `publish`: the load of `write_cursor`. -/
def publishCall (s : System cap m Word) (value : Payload m Word) :
    Option (System cap m Word) :=
  match s.publishPc with
  | PublishPc.idle =>
      some { s with
        publishPc := PublishPc.storeOdd s.queue.writeCursor value
        published := s.published ++ [value] }
  | _ => none

def publishStoreOdd (s : System cap m Word) : Option (System cap m Word) :=
  match s.publishPc with
  | PublishPc.storeOdd wPos value =>
      let seqNo := wPos * 2#W
      let slot := cap.slotIndex wPos
      some { s with
        queue := s.queue.storeSeq slot (seqNo + 1#W)
        publishPc := PublishPc.writeData wPos value (fun _ => false) }
  | _ => none

def publishWriteWord (s : System cap m Word) (i : Fin m) :
    Option (System cap m Word) :=
  match s.publishPc with
  | PublishPc.writeData wPos value written =>
      if written i then none
      else
        some { s with
          queue := s.queue.writeWord (cap.slotIndex wPos) i (value i)
          publishPc :=
            PublishPc.writeData wPos value
              (Function.update written i true) }
  | _ => none

def publishStoreEven (s : System cap m Word) : Option (System cap m Word) :=
  match s.publishPc with
  | PublishPc.writeData wPos _ written =>
      if forall i, written i = true then
        let seqNo := wPos * 2#W
        some { s with
          queue := s.queue.storeSeq (cap.slotIndex wPos) (seqNo + 2#W)
          publishPc := PublishPc.storeCursor wPos }
      else none
  | _ => none

def publishStoreCursor (s : System cap m Word) : Option (System cap m Word) :=
  match s.publishPc with
  | PublishPc.storeCursor wPos =>
      some { s with
        queue := { s.queue with writeCursor := wPos + 1#W }
        publishPc := PublishPc.idle
        completed := s.completed + 1 }
  | _ => none

/-!
## Steps of the consumers
-/

def readStep (s : System cap m Word) (r : Reader W m Word) :
    ReadAction m -> Option (Reader W m Word)
  | ReadAction.call => r.beginCall s.progress
  | ReadAction.loadWriteCursor =>
      r.gotWriteCursor s.progress s.completed s.queue.writeCursor
  | ReadAction.loadSeq =>
      r.gotSeq s.progress (s.queue.slots (r.thread.state.slot cap)).seq
  | ReadAction.loadWord i =>
      r.gotWord i ((s.queue.slots (r.thread.state.slot cap)).data i)

def setReader (s : System cap m Word) (c : Nat) (r : Reader W m Word) :
    System cap m Word :=
  { s with readers := Function.update s.readers c (some r) }

def read (s : System cap m Word) (c : Nat) (a : ReadAction m) :
    Option (System cap m Word) :=
  match s.readers c with
  | some r => (s.readStep r a).map (s.setReader c)
  | none => none

def clone (s : System cap m Word) (parent child : Nat) :
    Option (System cap m Word) :=
  match s.readers parent, s.readers child with
  | some r, none => r.clone.map (s.setReader child)
  | _, _ => none

def step (s : System cap m Word) :
    Action m Word -> Option (System cap m Word)
  | Action.publishCall value => s.publishCall value
  | Action.publishStoreOdd => s.publishStoreOdd
  | Action.publishWriteWord i => s.publishWriteWord i
  | Action.publishStoreEven => s.publishStoreEven
  | Action.publishStoreCursor => s.publishStoreCursor
  | Action.read c a => s.read c a
  | Action.clone parent child => s.clone parent child

/-!
## What each step does
-/

variable {s s' : System cap m Word}

theorem publishCall_inv {value : Payload m Word}
    (h : s.publishCall value = some s') :
    s.publishPc = PublishPc.idle ∧
      s' = { s with
        publishPc := PublishPc.storeOdd s.queue.writeCursor value
        published := s.published ++ [value] } := by
  unfold publishCall at h
  split at h
  · rename_i hpc
    exact ⟨hpc, (Option.some.inj h).symm⟩
  · cases h

theorem publishStoreOdd_inv (h : s.publishStoreOdd = some s') :
    exists wPos value, s.publishPc = PublishPc.storeOdd wPos value ∧
      s' = { s with
        queue := s.queue.storeSeq (cap.slotIndex wPos) (wPos * 2#W + 1#W)
        publishPc := PublishPc.writeData wPos value (fun _ => false) } := by
  unfold publishStoreOdd at h
  split at h
  · rename_i wPos value hpc
    exact ⟨wPos, value, hpc, (Option.some.inj h).symm⟩
  · cases h

theorem publishWriteWord_inv {i : Fin m}
    (h : s.publishWriteWord i = some s') :
    exists wPos value written,
      s.publishPc = PublishPc.writeData wPos value written ∧
      written i = false ∧
      s' = { s with
        queue := s.queue.writeWord (cap.slotIndex wPos) i (value i)
        publishPc :=
          PublishPc.writeData wPos value
            (Function.update written i true) } := by
  unfold publishWriteWord at h
  split at h
  · rename_i wPos value written hpc
    split at h
    · cases h
    · rename_i hwritten
      exact ⟨wPos, value, written, hpc, Bool.eq_false_iff.mpr hwritten,
        (Option.some.inj h).symm⟩
  · cases h

theorem publishStoreEven_inv (h : s.publishStoreEven = some s') :
    exists wPos value written,
      s.publishPc = PublishPc.writeData wPos value written ∧
      (forall i, written i = true) ∧
      s' = { s with
        queue := s.queue.storeSeq (cap.slotIndex wPos) (wPos * 2#W + 2#W)
        publishPc := PublishPc.storeCursor wPos } := by
  unfold publishStoreEven at h
  split at h
  · rename_i wPos value written hpc
    split at h
    · rename_i hall
      exact ⟨wPos, value, written, hpc, hall, (Option.some.inj h).symm⟩
    · cases h
  · cases h

theorem publishStoreCursor_inv (h : s.publishStoreCursor = some s') :
    exists wPos, s.publishPc = PublishPc.storeCursor wPos ∧
      s' = { s with
        queue := { s.queue with writeCursor := wPos + 1#W }
        publishPc := PublishPc.idle
        completed := s.completed + 1 } := by
  unfold publishStoreCursor at h
  split at h
  · rename_i wPos hpc
    exact ⟨wPos, hpc, (Option.some.inj h).symm⟩
  · cases h

theorem read_inv {c : Nat} {a : ReadAction m} (h : s.read c a = some s') :
    exists r r', s.readers c = some r ∧ s.readStep r a = some r' ∧
      s' = s.setReader c r' := by
  unfold read at h
  split at h
  · rename_i r hr
    rcases Option.map_eq_some_iff.mp h with ⟨r', hstep, hs'⟩
    exact ⟨r, r', hr, hstep, hs'.symm⟩
  · cases h

theorem clone_inv {parent child : Nat} (h : s.clone parent child = some s') :
    exists r r', s.readers parent = some r ∧ s.readers child = none ∧
      r.clone = some r' ∧ s' = s.setReader child r' := by
  unfold clone at h
  split at h
  · rename_i r hr hnone
    rcases Option.map_eq_some_iff.mp h with ⟨r', hclone, hs'⟩
    exact ⟨r, r', hr, hnone, hclone, hs'.symm⟩
  · cases h

theorem writing_of_open {e : Nat} (hopened : e < s.opened)
    (hstamped : s.stamped ≤ e) :
    e = s.completed ∧ exists wPos value written,
      s.publishPc = PublishPc.writeData wPos value written := by
  rw [opened] at hopened
  rw [stamped] at hstamped
  cases hpc : s.publishPc with
  | writeData wPos value written =>
      rw [hpc] at hopened hstamped
      exact ⟨Nat.le_antisymm (Nat.le_of_lt_succ hopened) hstamped,
        wPos, value, written, rfl⟩
  | _ =>
      rw [hpc] at hopened hstamped
      exact absurd hstamped (Nat.not_le_of_lt hopened)

theorem readers_setReader {c d : Nat} {r r' : Reader W m Word}
    (h : (s.setReader c r').readers d = some r) :
    (d = c ∧ r = r') ∨ s.readers d = some r :=
  new_or_old_of_update h

theorem step_readers {a : Action m Word} (h : s.step a = some s') {c : Nat}
    {r' : Reader W m Word} (hr' : s'.readers c = some r') :
    s.readers c = some r' ∨
    (exists r b, s.readers c = some r ∧ s.readStep r b = some r') ∨
    (exists parent r, s.readers parent = some r ∧ s.readers c = none ∧
      r.clone = some r') := by
  cases a with
  | publishCall value =>
      rcases publishCall_inv h with ⟨_, rfl⟩
      exact Or.inl hr'
  | publishStoreOdd =>
      rcases publishStoreOdd_inv h with ⟨_, _, _, rfl⟩
      exact Or.inl hr'
  | publishWriteWord i =>
      rcases publishWriteWord_inv h with ⟨_, _, _, _, _, rfl⟩
      exact Or.inl hr'
  | publishStoreEven =>
      rcases publishStoreEven_inv h with ⟨_, _, _, _, _, rfl⟩
      exact Or.inl hr'
  | publishStoreCursor =>
      rcases publishStoreCursor_inv h with ⟨_, _, rfl⟩
      exact Or.inl hr'
  | read d b =>
      rcases read_inv h with ⟨r, r₁, hr, hstep, rfl⟩
      rcases readers_setReader hr' with ⟨rfl, rfl⟩ | hold
      · exact Or.inr (Or.inl ⟨r, b, hr, hstep⟩)
      · exact Or.inl hold
  | clone parent child =>
      rcases clone_inv h with ⟨r, r₁, hr, hnone, hclone, rfl⟩
      rcases readers_setReader hr' with ⟨rfl, rfl⟩ | hold
      · exact Or.inr (Or.inr ⟨parent, r, hr, hnone, hclone⟩)
      · exact Or.inl hold

theorem readers_new [Zero Word] {c : Nat} {r : Reader W m Word}
    (h : (new cap m Word).readers c = some r) : r = Reader.new W m Word := by
  simp only [new] at h
  rcases new_or_old_of_update h with ⟨_, hr⟩ | hnone
  · exact hr
  · cases hnone

end System

def machine {W : Nat} (cap : Capacity W) (m : Nat) (Word : Type _)
    [Zero Word] : Machine (System cap m Word) (Action m Word) where
  start := System.new cap m Word
  step := System.step

/-!
## Schedules

Two runs of a ring of one slot.  In the one the first read is overtaken between
its two words, and the second read finds the value that overtook it.  In the
other the first read finds nothing, and then each value is read before the next
is published.
-/

def publishAll (value : Payload 2 Nat) : List (Action 2 Nat) :=
  [Action.publishCall value, Action.publishStoreOdd, Action.publishWriteWord 1,
    Action.publishWriteWord 0, Action.publishStoreEven,
    Action.publishStoreCursor]

def overtaken (first second : Payload 2 Nat) : List (Action 2 Nat) :=
  publishAll first ++
    [Action.read 0 ReadAction.call, Action.read 0 ReadAction.loadWriteCursor,
      Action.read 0 ReadAction.loadSeq, Action.read 0 (ReadAction.loadWord 0)] ++
    publishAll second ++
    [Action.read 0 (ReadAction.loadWord 1), Action.read 0 ReadAction.loadSeq,
      Action.read 0 ReadAction.loadSeq, Action.read 0 ReadAction.loadWriteCursor,
      Action.read 0 ReadAction.call, Action.read 0 ReadAction.loadSeq,
      Action.read 0 (ReadAction.loadWord 1),
      Action.read 0 (ReadAction.loadWord 0), Action.read 0 ReadAction.loadSeq]

def keepingUp (first second : Payload 2 Nat) : List (Action 2 Nat) :=
  [Action.read 0 ReadAction.call, Action.read 0 ReadAction.loadWriteCursor] ++
    publishAll first ++
    [Action.read 0 ReadAction.call, Action.read 0 ReadAction.loadWriteCursor,
      Action.read 0 ReadAction.loadSeq, Action.read 0 (ReadAction.loadWord 1),
      Action.read 0 (ReadAction.loadWord 0), Action.read 0 ReadAction.loadSeq] ++
    publishAll second ++
    [Action.read 0 ReadAction.call, Action.read 0 ReadAction.loadWriteCursor,
      Action.read 0 ReadAction.loadSeq, Action.read 0 (ReadAction.loadWord 0),
      Action.read 0 (ReadAction.loadWord 1), Action.read 0 ReadAction.loadSeq]

end Spmc
end LowLatency
