import LowLatency.Spmc.Consumer

/-!
# Readers with a history

A reader is a read thread together with what it has done so far: the unbounded
counters behind its two cursor words, the results it has returned, and the
counts of the current call.  The history is never read by the thread.
-/

namespace LowLatency
namespace Spmc

open Foundation

/-- The numbers of begun publishes, of even stores and of `write_cursor` stores. -/
structure Progress where
  begun : Nat
  stamped : Nat
  completed : Nat
deriving DecidableEq, Repr

/-- A finished `try_read`; the progress is that of its last load. -/
structure ReadRecord (W m : Nat) (Word : Type _) where
  position : Nat
  result : ReadResult W m Word
  progress : Progress

/-- What the current `try_read` has done. -/
structure CallStats where
  begunAtCall : Nat := 0
  iterations : Nat := 0
  oddIterations : Nat := 0
  copies : Nat := 0
deriving DecidableEq, Repr

structure Reader (W m : Nat) (Word : Type _) where
  thread : ReadThread W m Word
  start : Nat
  position : Nat
  cachedPosition : Nat
  log : List (ReadRecord W m Word)
  stats : CallStats

def ReadPc.pastCheck {W m : Nat} {Word : Type _} : ReadPc W m Word -> Bool
  | ReadPc.loadSeq => true
  | ReadPc.readData _ _ => true
  | ReadPc.reloadWriteCursor => true
  | _ => false

/-- Count a load of `seq` made at the given place of the loop. -/
def CallStats.countSeq {W m : Nat} {Word : Type _} (k : CallStats)
    (pc : ReadPc W m Word) (seq : BitVec W) : CallStats :=
  match pc with
  | ReadPc.loadSeq =>
      { k with
        iterations := k.iterations + 1
        oddIterations :=
          if seq &&& 1#W == 1#W then k.oddIterations + 1
          else k.oddIterations }
  | ReadPc.readData _ _ => { k with copies := k.copies + 1 }
  | _ => k

namespace Reader

variable {W m : Nat} {Word : Type _}

def new (W m : Nat) (Word : Type _) : Reader W m Word where
  thread := ReadThread.new W m Word
  start := 0
  position := 0
  cachedPosition := 0
  log := []
  stats := {}

/-- `Clone for Consumer`, between two calls of the parent. -/
def clone (r : Reader W m Word) : Option (Reader W m Word) :=
  match r.thread.pc with
  | ReadPc.idle =>
      some { r with start := r.position, log := [], stats := {} }
  | _ => none

def landing (r : Reader W m Word) (cached : Nat) : ReadResult W m Word -> Nat
  | ReadResult.value _ => r.position + 1
  | ReadResult.empty => r.position
  | ReadResult.lapped _ => cached - 1

def resume (r : Reader W m Word) (g : Progress) (cached : Nat)
    (out : ReadThread W m Word × Option (ReadResult W m Word)) :
    Reader W m Word :=
  match out with
  | (thread, none) => { r with thread := thread, cachedPosition := cached }
  | (thread, some result) =>
      { r with
        thread := thread
        position := r.landing cached result
        cachedPosition := cached
        log := r.log ++ [⟨r.position, result, g⟩] }

def beginCall (r : Reader W m Word) (g : Progress) :
    Option (Reader W m Word) :=
  r.thread.call.map (fun thread =>
    { r with thread := thread, stats := { begunAtCall := g.begun } })

/-- A load of `write_cursor` that saw the store of publish number `n`. -/
def gotWriteCursor (r : Reader W m Word) (g : Progress) (n : Nat)
    (writeCursor : BitVec W) : Option (Reader W m Word) :=
  (r.thread.gotWriteCursor writeCursor).map (r.resume g n)

def gotSeq (r : Reader W m Word) (g : Progress) (seq : BitVec W) :
    Option (Reader W m Word) :=
  (r.thread.gotSeq seq).map (fun out =>
    { r.resume g r.cachedPosition out with
      stats := r.stats.countSeq r.thread.pc seq })

def gotWord (r : Reader W m Word) (i : Fin m) (word : Word) :
    Option (Reader W m Word) :=
  (r.thread.gotWord i word).map (fun thread => { r with thread := thread })

/-!
## What each resumption can do
-/

variable {r r' : Reader W m Word} {g : Progress}

theorem clone_inv (h : r.clone = some r') :
    r.thread.pc = ReadPc.idle ∧
      r' = { r with start := r.position, log := [], stats := {} } := by
  unfold clone at h
  split at h
  · rename_i hpc
    exact ⟨hpc, (Option.some.inj h).symm⟩
  · cases h

theorem beginCall_inv (h : r.beginCall g = some r') :
    r.thread.pc = ReadPc.idle ∧
      r' = { r with
        thread := ⟨r.thread.state,
          if r.thread.state.looksEmpty then ReadPc.loadWriteCursor
          else ReadPc.loadSeq⟩
        stats := { begunAtCall := g.begun } } := by
  rcases Option.map_eq_some_iff.mp h with ⟨thread, hcall, hr'⟩
  unfold ReadThread.call at hcall
  split at hcall
  · rename_i hpc
    cases hcall
    exact ⟨hpc, hr'.symm⟩
  · cases hcall

theorem gotWriteCursor_inv {n : Nat} {writeCursor : BitVec W}
    (h : r.gotWriteCursor g n writeCursor = some r') :
    (r.thread.pc = ReadPc.loadWriteCursor ∧
      r.thread.state.readCursor = writeCursor ∧
      r' = { r with
        thread := ⟨⟨r.thread.state.readCursor, writeCursor⟩, ReadPc.idle⟩
        cachedPosition := n
        log := r.log ++ [⟨r.position, ReadResult.empty, g⟩] }) ∨
    (r.thread.pc = ReadPc.loadWriteCursor ∧
      r.thread.state.readCursor ≠ writeCursor ∧
      r' = { r with
        thread := ⟨⟨r.thread.state.readCursor, writeCursor⟩, ReadPc.loadSeq⟩
        cachedPosition := n }) ∨
    (r.thread.pc = ReadPc.reloadWriteCursor ∧
      r' = { r with
        thread := ⟨⟨writeCursor - 1#W, writeCursor⟩, ReadPc.idle⟩
        position := n - 1
        cachedPosition := n
        log := r.log ++ [⟨r.position,
          ReadResult.lapped
            (writeCursor - 1#W - r.thread.state.readCursor), g⟩] }) := by
  rcases Option.map_eq_some_iff.mp h with ⟨out, hout, hr'⟩
  unfold ReadThread.gotWriteCursor at hout
  split at hout
  · rename_i hpc
    by_cases hempty : r.thread.state.readCursor = writeCursor
    · left
      simp only [ConsumerState.isStillEmpty, ConsumerState.looksEmpty,
        beq_iff_eq, hempty, if_true] at hout
      cases hout
      refine ⟨hpc, hempty, ?_⟩
      rw [← hr', hempty]
      rfl
    · right
      left
      simp only [ConsumerState.isStillEmpty, ConsumerState.looksEmpty,
        beq_iff_eq, hempty, if_false] at hout
      cases hout
      exact ⟨hpc, hempty, hr'.symm⟩
  · rename_i hpc
    right
    right
    cases hout
    exact ⟨hpc, hr'.symm⟩
  · cases hout

theorem gotSeq_counts {seq : BitVec W} (h : r.gotSeq g seq = some r') :
    (r.thread.pc = ReadPc.loadSeq ∧ seq &&& 1#W = 1#W ∧
      r' = { r with stats := { r.stats with
        iterations := r.stats.iterations + 1
        oddIterations := r.stats.oddIterations + 1 } }) ∨
    (r.thread.pc = ReadPc.loadSeq ∧ seq &&& 1#W ≠ 1#W ∧
      seq ≠ r.thread.state.expectedSeq ∧
      r' = { r with
        thread := ⟨r.thread.state, ReadPc.reloadWriteCursor⟩
        stats := { r.stats with iterations := r.stats.iterations + 1 } }) ∨
    (r.thread.pc = ReadPc.loadSeq ∧ seq &&& 1#W ≠ 1#W ∧
      seq = r.thread.state.expectedSeq ∧
      r' = { r with
        thread := ⟨r.thread.state, ReadPc.readData seq (fun _ => none)⟩
        stats := { r.stats with iterations := r.stats.iterations + 1 } }) ∨
    (exists copied attemptedRead,
      r.thread.pc = ReadPc.readData seq copied ∧
      collect copied = some attemptedRead ∧
      r' = { r with
        thread := ⟨r.thread.state.advance, ReadPc.idle⟩
        position := r.position + 1
        log := r.log ++
          [⟨r.position, ReadResult.value attemptedRead, g⟩]
        stats := { r.stats with copies := r.stats.copies + 1 } }) ∨
    (exists seq1 copied,
      r.thread.pc = ReadPc.readData seq1 copied ∧ seq1 ≠ seq ∧
      r' = { r with
        thread := ⟨r.thread.state, ReadPc.loadSeq⟩
        stats := { r.stats with copies := r.stats.copies + 1 } }) := by
  rcases Option.map_eq_some_iff.mp h with ⟨out, hout, hr'⟩
  unfold ReadThread.gotSeq at hout
  split at hout
  · rename_i hpc
    rw [hpc] at hr'
    by_cases hodd : seq &&& 1#W = 1#W
    · left
      rw [if_pos (by simpa using hodd)] at hout
      cases hout
      refine ⟨hpc, hodd, ?_⟩
      simp only [CallStats.countSeq, beq_iff_eq, hodd, if_true] at hr'
      exact hr'.symm
    · right
      simp only [CallStats.countSeq, beq_iff_eq, hodd, if_false] at hr'
      by_cases hexpected : seq = r.thread.state.expectedSeq
      · right
        left
        rw [if_neg (by simpa using hodd), if_neg (by simpa using hexpected)]
          at hout
        cases hout
        exact ⟨hpc, hodd, hexpected, hr'.symm⟩
      · left
        rw [if_neg (by simpa using hodd), if_pos (by simpa using hexpected)]
          at hout
        cases hout
        exact ⟨hpc, hodd, hexpected, hr'.symm⟩
  · rename_i seq1 copied hpc
    rw [hpc] at hr'
    right
    right
    right
    split at hout
    · cases hout
    · rename_i attemptedRead hcollect
      by_cases heq : seq1 = seq
      · left
        subst heq
        rw [if_pos (beq_self_eq_true seq1)] at hout
        cases hout
        exact ⟨copied, attemptedRead, hpc, hcollect, hr'.symm⟩
      · right
        rw [if_neg (by simpa using heq)] at hout
        cases hout
        exact ⟨seq1, copied, hpc, heq, hr'.symm⟩
  · cases hout

theorem gotSeq_inv {seq : BitVec W} (h : r.gotSeq g seq = some r') :
    exists stats : CallStats,
    (r.thread.pc = ReadPc.loadSeq ∧ seq &&& 1#W = 1#W ∧
      r' = { r with stats := stats }) ∨
    (r.thread.pc = ReadPc.loadSeq ∧ seq &&& 1#W ≠ 1#W ∧
      seq ≠ r.thread.state.expectedSeq ∧
      r' = { r with
        thread := ⟨r.thread.state, ReadPc.reloadWriteCursor⟩
        stats := stats }) ∨
    (r.thread.pc = ReadPc.loadSeq ∧
      seq = r.thread.state.expectedSeq ∧
      r' = { r with
        thread := ⟨r.thread.state, ReadPc.readData seq (fun _ => none)⟩
        stats := stats }) ∨
    (exists copied attemptedRead,
      r.thread.pc = ReadPc.readData seq copied ∧
      collect copied = some attemptedRead ∧
      r' = { r with
        thread := ⟨r.thread.state.advance, ReadPc.idle⟩
        position := r.position + 1
        log := r.log ++
          [⟨r.position, ReadResult.value attemptedRead, g⟩]
        stats := stats }) ∨
    (exists seq1 copied,
      r.thread.pc = ReadPc.readData seq1 copied ∧ seq1 ≠ seq ∧
      r' = { r with
        thread := ⟨r.thread.state, ReadPc.loadSeq⟩
        stats := stats }) := by
  rcases gotSeq_counts h with hodd | hunexpected | ⟨hpc, _, hexpected, hr'⟩ |
    haccepted | hretried
  · exact ⟨_, Or.inl hodd⟩
  · exact ⟨_, Or.inr (Or.inl hunexpected)⟩
  · exact ⟨_, Or.inr (Or.inr (Or.inl ⟨hpc, hexpected, hr'⟩))⟩
  · exact ⟨_, Or.inr (Or.inr (Or.inr (Or.inl haccepted)))⟩
  · exact ⟨_, Or.inr (Or.inr (Or.inr (Or.inr hretried)))⟩

theorem gotWord_inv {i : Fin m} {word : Word}
    (h : r.gotWord i word = some r') :
    exists seq1 copied, r.thread.pc = ReadPc.readData seq1 copied ∧
      copied i = none ∧
      r' = { r with
        thread := ⟨r.thread.state,
          ReadPc.readData seq1 (Function.update copied i (some word))⟩ } := by
  rcases Option.map_eq_some_iff.mp h with ⟨thread, hthread, hr'⟩
  unfold ReadThread.gotWord at hthread
  split at hthread
  · rename_i seq1 copied hpc
    split at hthread
    · rename_i hnone
      cases hthread
      exact ⟨seq1, copied, hpc, hnone, hr'.symm⟩
    · cases hthread
  · cases hthread

/-!
## Cursor words

The cursor words are the words of the unbounded cursors, and the read cursor
never passes the cached write cursor.  `visible` is the number of publishes
whose `write_cursor` store the reader is bound to see.
-/

structure Cursors (r : Reader W m Word) (visible : Nat) : Prop where
  state : r.thread.state =
    ⟨BitVec.ofNat W r.position, BitVec.ofNat W r.cachedPosition⟩
  position_le : r.position ≤ r.cachedPosition
  cached_le : r.cachedPosition ≤ visible
  past : r.thread.pc.pastCheck = true -> r.position < r.cachedPosition
  readData : forall seq1 copied, r.thread.pc = ReadPc.readData seq1 copied ->
    seq1 = BitVec.ofNat W (2 * r.position + 2)

namespace Cursors

variable {visible : Nat}

theorem expectedSeq (hr : Cursors r visible) :
    r.thread.state.expectedSeq = BitVec.ofNat W (2 * r.position + 2) := by
  rw [ConsumerState.expectedSeq, hr.state, Words.ofNat_mul_two]
  exact BitVec.ofNat_add_ofNat _ 2

theorem slot {cap : Capacity W} (hr : Cursors r visible) :
    r.thread.state.slot cap = cap.slotOf r.position := by
  rw [ConsumerState.slot, hr.state]
  rfl

theorem mono (hr : Cursors r visible) {visible' : Nat}
    (h : visible ≤ visible') : Cursors r visible' :=
  { hr with cached_le := Nat.le_trans hr.cached_le h }

theorem new (visible : Nat) : Cursors (Reader.new W m Word) visible where
  state := rfl
  position_le := Nat.le_refl _
  cached_le := Nat.zero_le _
  past h := by cases h
  readData _ _ h := by cases h

theorem clone (hr : Cursors r visible) (h : r.clone = some r') :
    Cursors r' visible := by
  rcases clone_inv h with ⟨_, rfl⟩
  exact ⟨hr.state, hr.position_le, hr.cached_le, hr.past, hr.readData⟩

theorem beginCall (hr : Cursors r visible) (h : r.beginCall g = some r') :
    Cursors r' visible := by
  rcases beginCall_inv h with ⟨_, rfl⟩
  refine ⟨hr.state, hr.position_le, hr.cached_le, ?_, ?_⟩
  · intro hpast
    rcases Nat.lt_or_eq_of_le hr.position_le with hlt | heq
    · exact hlt
    · have hempty : r.thread.state.looksEmpty = true := by
        rw [hr.state, heq]
        exact beq_self_eq_true _
      simp [hempty, ReadPc.pastCheck] at hpast
  · intro seq1 copied hpc
    dsimp only at hpc
    split at hpc <;> cases hpc

theorem gotWriteCursor (hr : Cursors r visible) {n : Nat}
    (hn : visible ≤ n)
    (h : r.gotWriteCursor g n (BitVec.ofNat W n) = some r') :
    Cursors r' n := by
  have hposition : r.position ≤ n :=
    Nat.le_trans hr.position_le (Nat.le_trans hr.cached_le hn)
  rcases gotWriteCursor_inv h with
    ⟨_, _, rfl⟩ | ⟨_, hne, rfl⟩ | ⟨hpc, rfl⟩
  · refine ⟨?_, hposition, Nat.le_refl _, ?_, ?_⟩
    · simp only [hr.state]
    · intro hpast
      cases hpast
    · intro _ _ hpc
      cases hpc
  · refine ⟨?_, hposition, Nat.le_refl _, ?_, ?_⟩
    · simp only [hr.state]
    · intro _
      rcases Nat.lt_or_eq_of_le hposition with hlt | heq
      · exact hlt
      · rw [hr.state, heq] at hne
        exact absurd rfl hne
    · intro _ _ hpc
      cases hpc
  · have hlt := hr.past (by rw [hpc]; rfl)
    have hcached := hr.cached_le
    refine ⟨?_, Nat.sub_le _ _, Nat.le_refl _, ?_, ?_⟩
    · dsimp only
      rw [← Words.ofNat_sub_ofNat (show 1 ≤ n by lia)]
    · intro hpast
      cases hpast
    · intro _ _ hpc
      cases hpc

theorem gotSeq (hr : Cursors r visible) {seq : BitVec W}
    (h : r.gotSeq g seq = some r') : Cursors r' visible := by
  rcases gotSeq_inv h with ⟨stats, hcases⟩
  rcases hcases with ⟨hpc, _, rfl⟩ | ⟨hpc, _, _, rfl⟩ | ⟨hpc, hseq, rfl⟩ |
    ⟨copied, attemptedRead, hpc, _, rfl⟩ | ⟨seq1, copied, hpc, _, rfl⟩
  · exact ⟨hr.state, hr.position_le, hr.cached_le, hr.past, hr.readData⟩
  · refine ⟨hr.state, hr.position_le, hr.cached_le, ?_, ?_⟩
    · intro _
      exact hr.past (by rw [hpc]; rfl)
    · intro _ _ hdata
      cases hdata
  · refine ⟨hr.state, hr.position_le, hr.cached_le, ?_, ?_⟩
    · intro _
      exact hr.past (by rw [hpc]; rfl)
    · intro seq1 copied hdata
      cases hdata
      rw [hseq, hr.expectedSeq]
  · have hlt := hr.past (by rw [hpc]; rfl)
    refine ⟨?_, hlt, hr.cached_le, ?_, ?_⟩
    · rw [hr.state]
      simp only [ConsumerState.advance, BitVec.ofNat_add_ofNat]
    · intro hpast
      cases hpast
    · intro _ _ hdata
      cases hdata
  · refine ⟨hr.state, hr.position_le, hr.cached_le, ?_, ?_⟩
    · intro _
      exact hr.past (by rw [hpc]; rfl)
    · intro _ _ hdata
      cases hdata

theorem gotWord (hr : Cursors r visible) {i : Fin m} {word : Word}
    (h : r.gotWord i word = some r') : Cursors r' visible := by
  rcases gotWord_inv h with ⟨seq1, copied, hpc, _, rfl⟩
  refine ⟨hr.state, hr.position_le, hr.cached_le, ?_, ?_⟩
  · intro _
    exact hr.past (by rw [hpc]; rfl)
  · intro seq1' copied' hdata
    cases hdata
    exact hr.readData _ _ hpc

end Cursors
end Reader
end Spmc
end LowLatency
