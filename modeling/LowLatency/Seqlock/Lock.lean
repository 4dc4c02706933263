import Mathlib.Data.BitVec
import LowLatency.Foundation.Words
import LowLatency.Payload

/-!
# The seqlock and its two operations

`write` and `read` are kept apart from the memory they run on: each stands
before an access to memory and is resumed with what the access returned.  The
memory model that runs them decides which values a load may return and what the
fences do.
-/

namespace LowLatency
namespace Seqlock

open Foundation

/-- `SeqLockInner`. -/
structure SeqLock (m : Nat) (Word : Type _) where
  data : Payload m Word
  seq : BitVec 64

def SeqLock.new {m : Nat} {Word : Type _} (initialValue : Payload m Word) :
    SeqLock m Word where
  data := initialValue
  seq := 0#64

namespace SeqLock

variable {m : Nat} {Word : Type _}

/-- `write` with no other party in between. -/
def write (l : SeqLock m Word) (value : Payload m Word) : SeqLock m Word :=
  let s := l.seq
  let l := { l with seq := s + 1#64 }
  let l := { l with data := value }
  { l with seq := s + 2#64 }

/--
`read` on a lock that no one changes meanwhile; `none` when the given number of
iterations does not suffice.
-/
def read (l : SeqLock m Word) : Nat -> Option (Payload m Word)
  | 0 => none
  | fuel + 1 =>
      let s1 := l.seq
      if s1 &&& 1#64 == 1#64 then read l fuel
      else
        let readAttempt := l.data
        let s2 := l.seq
        if s1 == s2 then some readAttempt else read l fuel

theorem read_eq_some {l : SeqLock m Word} {fuel : Nat} {v : Payload m Word} :
    l.read fuel = some v <->
      0 < fuel ∧ l.seq &&& 1#64 ≠ 1#64 ∧ l.data = v := by
  induction fuel with
  | zero => simp [read]
  | succ fuel ih =>
      by_cases hodd : l.seq &&& 1#64 = 1#64
      · simp [read, hodd, ih]
      · simp [read, hodd]

theorem read_write {l : SeqLock m Word} (heven : l.seq &&& 1#64 ≠ 1#64)
    (value : Payload m Word) (fuel : Nat) :
    (l.write value).read (fuel + 1) = some value := by
  refine read_eq_some.mpr ⟨Nat.succ_pos _, ?_, rfl⟩
  change (l.seq + 2#64) &&& 1#64 ≠ 1#64
  rw [Words.add_two_and_one (by decide)]
  exact heven

end SeqLock

/-!
## The writer
-/

/-- Where `write` stands; `s` is the value of `seq` that it has loaded. -/
inductive WritePc (m : Nat) (Word : Type _) where
  | idle
  | storeOdd (s : BitVec 64) (value : Payload m Word)
  | releaseFence (s : BitVec 64) (value : Payload m Word)
  /-- The payload copy, and the even store once all words are written. -/
  | writeData (s : BitVec 64) (value : Payload m Word)
      (written : Fin m -> Bool)

namespace WritePc

variable {m : Nat} {Word : Type _}

def begun : WritePc m Word -> Nat
  | idle => 0
  | _ => 1

def opened : WritePc m Word -> Nat
  | releaseFence _ _ => 1
  | writeData _ _ _ => 1
  | _ => 0

theorem opened_le_begun (pc : WritePc m Word) : pc.opened ≤ pc.begun := by
  cases pc <;> simp [opened, begun]

theorem opened_le_one (pc : WritePc m Word) : pc.opened ≤ 1 := by
  cases pc <;> simp [opened]

def call? : WritePc m Word -> Option (BitVec 64 × Payload m Word)
  | idle => none
  | storeOdd s value => some (s, value)
  | releaseFence s value => some (s, value)
  | writeData s value _ => some (s, value)

end WritePc

/-!
## The readers
-/

inductive ReadPc (m : Nat) (Word : Type _) where
  | idle
  /-- The load of `s1`. -/
  | loadSeq
  /-- The payload copy, and the acquire fence once all words are copied. -/
  | readData (s1 : BitVec 64) (copied : Fin m -> Option Word)
  /-- The load of `s2`. -/
  | reloadSeq (s1 : BitVec 64) (readAttempt : Payload m Word)

namespace ReadPc

variable {m : Nat} {Word : Type _}

def call : ReadPc m Word -> Option (ReadPc m Word)
  | idle => some loadSeq
  | _ => none

def gotSeq (pc : ReadPc m Word) (seq : BitVec 64) :
    Option (ReadPc m Word × Option (Payload m Word)) :=
  match pc with
  | loadSeq =>
      if seq &&& 1#64 == 1#64 then some (loadSeq, none)
      else some (readData seq (fun _ => none), none)
  | reloadSeq s1 readAttempt =>
      if s1 == seq then some (idle, some readAttempt)
      else some (loadSeq, none)
  | _ => none

def gotWord (pc : ReadPc m Word) (i : Fin m) (word : Word) :
    Option (ReadPc m Word) :=
  match pc with
  | readData s1 copied =>
      match copied i with
      | none => some (readData s1 (Function.update copied i (some word)))
      | some _ => none
  | _ => none

def fence (pc : ReadPc m Word) : Option (ReadPc m Word) :=
  match pc with
  | readData s1 copied => (collect copied).map (reloadSeq s1)
  | _ => none

variable {pc pc' : ReadPc m Word}

theorem call_inv (h : pc.call = some pc') : pc = idle ∧ pc' = loadSeq := by
  unfold call at h
  split at h
  · exact ⟨rfl, (Option.some.inj h).symm⟩
  · cases h

theorem gotSeq_inv {seq : BitVec 64} {out : Option (Payload m Word)}
    (h : pc.gotSeq seq = some (pc', out)) :
    (pc = loadSeq ∧ seq &&& 1#64 = 1#64 ∧ pc' = loadSeq ∧ out = none) ∨
    (pc = loadSeq ∧ seq &&& 1#64 ≠ 1#64 ∧
      pc' = readData seq (fun _ => none) ∧ out = none) ∨
    (exists readAttempt, pc = reloadSeq seq readAttempt ∧ pc' = idle ∧
      out = some readAttempt) ∨
    (exists s1 readAttempt, pc = reloadSeq s1 readAttempt ∧ s1 ≠ seq ∧
      pc' = loadSeq ∧ out = none) := by
  unfold gotSeq at h
  split at h
  · by_cases hodd : seq &&& 1#64 = 1#64
    · left
      rw [if_pos (by simpa using hodd)] at h
      cases h
      exact ⟨rfl, hodd, rfl, rfl⟩
    · right
      left
      rw [if_neg (by simpa using hodd)] at h
      cases h
      exact ⟨rfl, hodd, rfl, rfl⟩
  · rename_i s1 readAttempt
    right
    right
    by_cases heq : s1 = seq
    · left
      subst heq
      rw [if_pos (beq_self_eq_true s1)] at h
      cases h
      exact ⟨readAttempt, rfl, rfl, rfl⟩
    · right
      rw [if_neg (by simpa using heq)] at h
      cases h
      exact ⟨s1, readAttempt, rfl, heq, rfl, rfl⟩
  · cases h

theorem gotWord_inv {i : Fin m} {word : Word}
    (h : pc.gotWord i word = some pc') :
    exists s1 copied, pc = readData s1 copied ∧ copied i = none ∧
      pc' = readData s1 (Function.update copied i (some word)) := by
  unfold gotWord at h
  split at h
  · rename_i s1 copied
    split at h
    · rename_i hnone
      exact ⟨s1, copied, rfl, hnone, (Option.some.inj h).symm⟩
    · cases h
  · cases h

theorem fence_inv (h : pc.fence = some pc') :
    exists s1 copied readAttempt, pc = readData s1 copied ∧
      collect copied = some readAttempt ∧
      pc' = reloadSeq s1 readAttempt := by
  unfold fence at h
  split at h
  · rename_i s1 copied
    rcases Option.map_eq_some_iff.mp h with ⟨readAttempt, hcollect, hpc'⟩
    exact ⟨s1, copied, readAttempt, rfl, hcollect, hpc'.symm⟩
  · cases h

end ReadPc
end Seqlock
end LowLatency
