import LowLatency.Foundation.Progress
import LowLatency.Spmc.Retries

/-!
# Calls without a producer

A running `try_read` can always take a step.  While the producer rests outside
of the slot of the call, at most one more iteration begins, and the number of
own steps up to the return is bounded.
-/

namespace LowLatency
namespace Spmc

open Foundation

/-!
## What a call has left

The slot keeps the even number `seq`.
-/

namespace ReadPc

variable {W m : Nat} {Word : Type _}

def iterationsLeft (seq : BitVec W) : ReadPc W m Word -> Nat
  | idle => 1
  | loadWriteCursor => 1
  | loadSeq => 1
  | readData seq1 _ => if seq1 = seq then 0 else 1
  | reloadWriteCursor => 0

def stepsLeft (seq : BitVec W) : ReadPc W m Word -> Nat
  | idle => m + 3
  | loadWriteCursor => m + 2
  | loadSeq => m + 1
  | readData seq1 copied => missing copied + (if seq1 = seq then 0 else m + 2)
  | reloadWriteCursor => 0

theorem iterationsLeft_le (seq : BitVec W) (pc : ReadPc W m Word) :
    pc.iterationsLeft seq ≤ 1 := by
  cases pc with
  | idle => exact Nat.le_refl 1
  | loadWriteCursor => exact Nat.le_refl 1
  | loadSeq => exact Nat.le_refl 1
  | readData seq1 copied =>
      dsimp only [iterationsLeft]
      split
      · exact Nat.zero_le 1
      · exact Nat.le_refl 1
  | reloadWriteCursor => exact Nat.zero_le 1

theorem stepsLeft_lt (seq : BitVec W) (pc : ReadPc W m Word) :
    pc.stepsLeft seq < 2 * m + 4 := by
  cases pc with
  | readData seq1 copied =>
      have hmissing := missing_le copied
      dsimp only [stepsLeft]
      split
      · lia
      · lia
  | _ =>
      dsimp only [stepsLeft]
      lia

end ReadPc

namespace System

variable {W : Nat} {cap : Capacity W} {m : Nat} {Word : Type _}
variable {s s' : System cap m Word} {r r' : Reader W m Word}

/-!
## One own step
-/

theorem readStep_log {a : ReadAction m} (h : s.readStep r a = some r') :
    (r'.thread.pc ≠ ReadPc.idle ∧ r'.log.length = r.log.length) ∨
    (r'.thread.pc = ReadPc.idle ∧ r'.log.length = r.log.length + 1) := by
  cases a with
  | call =>
      rcases Reader.beginCall_inv h with ⟨_, rfl⟩
      left
      refine ⟨?_, rfl⟩
      dsimp only
      split <;> exact nofun
  | loadWriteCursor =>
      rcases Reader.gotWriteCursor_inv h with ⟨_, _, rfl⟩ | ⟨_, _, rfl⟩ |
        ⟨_, rfl⟩
      · exact Or.inr ⟨rfl, List.length_append⟩
      · exact Or.inl ⟨nofun, rfl⟩
      · exact Or.inr ⟨rfl, List.length_append⟩
  | loadSeq =>
      rcases Reader.gotSeq_counts h with ⟨hpc, _, rfl⟩ | ⟨_, _, _, rfl⟩ |
        ⟨_, _, _, rfl⟩ | ⟨_, _, _, _, rfl⟩ | ⟨_, _, _, _, rfl⟩
      · left
        refine ⟨?_, rfl⟩
        dsimp only
        rw [hpc]
        exact nofun
      · exact Or.inl ⟨nofun, rfl⟩
      · exact Or.inl ⟨nofun, rfl⟩
      · exact Or.inr ⟨rfl, List.length_append⟩
      · exact Or.inl ⟨nofun, rfl⟩
  | loadWord i =>
      rcases Reader.gotWord_inv h with ⟨_, _, _, _, rfl⟩
      exact Or.inl ⟨nofun, rfl⟩

structure Advanced (seq : BitVec W) (r r' : Reader W m Word) : Prop where
  cursor : r'.thread.state.readCursor = r.thread.state.readCursor
  iterations : r'.stats.iterations + r'.thread.pc.iterationsLeft seq ≤
    r.stats.iterations + r.thread.pc.iterationsLeft seq
  odd : r'.stats.oddIterations = r.stats.oddIterations
  steps : r'.thread.pc.stepsLeft seq < r.thread.pc.stepsLeft seq

structure Ended (seq : BitVec W) (r r' : Reader W m Word) : Prop where
  iterations : r'.stats.iterations ≤
    r.stats.iterations + r.thread.pc.iterationsLeft seq
  odd : r'.stats.oddIterations = r.stats.oddIterations

theorem readStep_left {seq : BitVec W} {a : ReadAction m}
    (hseq : (s.queue.slots (r.thread.state.slot cap)).seq = seq)
    (heven : seq &&& 1#W ≠ 1#W) (hpc : r.thread.pc ≠ ReadPc.idle)
    (h : s.readStep r a = some r') :
    (r'.thread.pc ≠ ReadPc.idle ∧ Advanced seq r r') ∨
    (r'.thread.pc = ReadPc.idle ∧ Ended seq r r') := by
  cases a with
  | call => exact absurd (Reader.beginCall_inv h).left hpc
  | loadWriteCursor =>
      rcases Reader.gotWriteCursor_inv h with ⟨_, _, rfl⟩ | ⟨hload, _, rfl⟩ |
        ⟨_, rfl⟩
      · exact Or.inr ⟨rfl, Nat.le_add_right _ _, rfl⟩
      · left
        refine ⟨?_, rfl, ?_, rfl, ?_⟩
        · intro hidle
          cases hidle
        · rw [hload]
          exact Nat.le_refl _
        · rw [hload]
          exact Nat.lt_succ_self _
      · exact Or.inr ⟨rfl, Nat.le_add_right _ _, rfl⟩
  | loadSeq =>
      rw [readStep, hseq] at h
      rcases Reader.gotSeq_counts h with ⟨_, hodd, rfl⟩ | ⟨hload, _, _, rfl⟩ |
        ⟨hload, _, _, rfl⟩ | ⟨copied, v, hdata, _, rfl⟩ |
        ⟨seq1, copied, hdata, hne, rfl⟩
      · exact absurd hodd heven
      · left
        refine ⟨?_, rfl, ?_, rfl, ?_⟩
        · intro hidle
          cases hidle
        · rw [hload]
          exact Nat.le_refl _
        · rw [hload]
          exact Nat.succ_pos _
      · left
        refine ⟨?_, rfl, ?_, rfl, ?_⟩
        · intro hidle
          cases hidle
        · rw [hload]
          dsimp only [ReadPc.iterationsLeft]
          rw [if_pos rfl]
        · rw [hload]
          dsimp only [ReadPc.stepsLeft]
          rw [if_pos rfl, missing_none]
          exact Nat.lt_succ_self _
      · exact Or.inr ⟨rfl, Nat.le_add_right _ _, rfl⟩
      · left
        refine ⟨?_, rfl, ?_, rfl, ?_⟩
        · intro hidle
          cases hidle
        · rw [hdata]
          dsimp only [ReadPc.iterationsLeft]
          rw [if_neg hne]
        · rw [hdata]
          dsimp only [ReadPc.stepsLeft]
          rw [if_neg hne]
          lia
  | loadWord i =>
      rcases Reader.gotWord_inv h with ⟨seq1, copied, hdata, hnone, rfl⟩
      left
      refine ⟨?_, rfl, ?_, rfl, ?_⟩
      · intro hidle
        cases hidle
      · rw [hdata]
        exact Nat.le_refl _
      · rw [hdata]
        dsimp only [ReadPc.stepsLeft]
        exact Nat.add_lt_add_right (missing_update_lt hnone _) _

theorem readStep_idle {a : ReadAction m} (hpc : r.thread.pc = ReadPc.idle)
    (h : s.readStep r a = some r') : a = ReadAction.call := by
  cases a with
  | call => rfl
  | loadWriteCursor =>
      rcases Reader.gotWriteCursor_inv h with ⟨hload, _⟩ | ⟨hload, _⟩ |
        ⟨hload, _⟩
      · rw [hpc] at hload
        cases hload
      · rw [hpc] at hload
        cases hload
      · rw [hpc] at hload
        cases hload
  | loadSeq =>
      rcases Reader.gotSeq_counts h with ⟨hload, _⟩ | ⟨hload, _⟩ |
        ⟨hload, _⟩ | ⟨_, _, hload, _⟩ | ⟨_, _, hload, _⟩
      · rw [hpc] at hload
        cases hload
      · rw [hpc] at hload
        cases hload
      · rw [hpc] at hload
        cases hload
      · rw [hpc] at hload
        cases hload
      · rw [hpc] at hload
        cases hload
  | loadWord i =>
      rcases Reader.gotWord_inv h with ⟨_, _, hload, _⟩
      rw [hpc] at hload
      cases hload

theorem exists_readStep (hpc : r.thread.pc ≠ ReadPc.idle) :
    exists a r', s.readStep r a = some r' := by
  cases hkind : r.thread.pc with
  | idle => exact absurd hkind hpc
  | loadWriteCursor =>
      exists ReadAction.loadWriteCursor
      rw [readStep, Reader.gotWriteCursor, ReadThread.gotWriteCursor, hkind]
      dsimp only
      split
      · exact ⟨_, rfl⟩
      · exact ⟨_, rfl⟩
  | loadSeq =>
      exists ReadAction.loadSeq
      rw [readStep, Reader.gotSeq, ReadThread.gotSeq, hkind]
      dsimp only
      split_ifs
      · exact ⟨_, rfl⟩
      · exact ⟨_, rfl⟩
      · exact ⟨_, rfl⟩
  | readData seq1 copied =>
      rcases exists_missing_or_collect copied with ⟨i, hi⟩ | ⟨v, hv⟩
      · exists ReadAction.loadWord i
        rw [readStep, Reader.gotWord, ReadThread.gotWord, hkind]
        dsimp only
        rw [hi]
        exact ⟨_, rfl⟩
      · exists ReadAction.loadSeq
        rw [readStep, Reader.gotSeq, ReadThread.gotSeq, hkind]
        dsimp only
        rw [hv]
        dsimp only
        split_ifs
        · exact ⟨_, rfl⟩
        · exact ⟨_, rfl⟩
  | reloadWriteCursor =>
      exists ReadAction.loadWriteCursor
      rw [readStep, Reader.gotWriteCursor, ReadThread.gotWriteCursor, hkind]
      exact ⟨_, rfl⟩

/-!
## The call of one reader in a run
-/

def iterationsBefore (r : Reader W m Word) : Nat :=
  match r.thread.pc with
  | ReadPc.idle => 0
  | _ => r.stats.iterations

def oddBefore (r : Reader W m Word) : Nat :=
  match r.thread.pc with
  | ReadPc.idle => 0
  | _ => r.stats.oddIterations

def InCall (r r' : Reader W m Word) : Prop :=
  (r'.thread.pc ≠ ReadPc.idle ∧ r'.log.length = r.log.length) ∨
  (r'.thread.pc = ReadPc.idle ∧ r'.log.length = r.log.length + 1)

/-- How far the call that `r` runs or begins has got when the reader is `r'`. -/
inductive Since (seq : BitVec W) (r : Reader W m Word) :
    Reader W m Word -> Prop where
  | waiting (hpc : r.thread.pc = ReadPc.idle) : Since seq r r
  | running (r' : Reader W m Word) (hpc : r'.thread.pc ≠ ReadPc.idle)
      (hlog : r'.log.length = r.log.length)
      (hcursor : r'.thread.state.readCursor = r.thread.state.readCursor)
      (hiterations : r'.stats.iterations + r'.thread.pc.iterationsLeft seq ≤
        iterationsBefore r + 1)
      (hodd : r'.stats.oddIterations = oddBefore r) : Since seq r r'
  | returned (r' : Reader W m Word) (hpc : r'.thread.pc = ReadPc.idle)
      (hlog : r'.log.length = r.log.length + 1)
      (hiterations : r'.stats.iterations ≤ iterationsBefore r + 1)
      (hodd : r'.stats.oddIterations = oddBefore r) : Since seq r r'
  | past (r' : Reader W m Word) (hlog : r.log.length < r'.log.length)
      (hother : Not (InCall r r')) : Since seq r r'

theorem Since.start (seq : BitVec W) (r : Reader W m Word) :
    Since seq r r := by
  by_cases hpc : r.thread.pc = ReadPc.idle
  · exact Since.waiting hpc
  · have hleft := ReadPc.iterationsLeft_le seq r.thread.pc
    apply Since.running r hpc rfl rfl
    · unfold iterationsBefore
      split
      · contradiction
      · lia
    · unfold oddBefore
      split
      · contradiction
      · rfl

theorem Since.step {seq : BitVec W} {r₀ : Reader W m Word} {a : ReadAction m}
    (hs : Since seq r₀ r)
    (hseq : forall r : Reader W m Word,
      r.thread.state.readCursor = r₀.thread.state.readCursor ->
      (s.queue.slots (r.thread.state.slot cap)).seq = seq)
    (heven : seq &&& 1#W ≠ 1#W) (h : s.readStep r a = some r') :
    Since seq r₀ r' := by
  cases hs with
  | waiting hpc =>
      cases readStep_idle hpc h
      rcases Reader.beginCall_inv h with ⟨_, rfl⟩
      apply Since.running
      · dsimp only
        split <;> exact nofun
      · rfl
      · rfl
      · rw [Nat.zero_add]
        exact Nat.le_trans (ReadPc.iterationsLeft_le _ _)
          (Nat.le_add_left 1 _)
      · unfold oddBefore
        rw [hpc]
  | running r hpc hlog hcursor hiterations hodd =>
      rcases readStep_left (hseq r hcursor) heven hpc h with
        ⟨hpc', hadvanced⟩ | ⟨hpc', hended⟩
      · rcases readStep_log h with ⟨_, hsame⟩ | ⟨hidle, _⟩
        · apply Since.running r' hpc' (hsame.trans hlog)
            (hadvanced.cursor.trans hcursor)
          · exact Nat.le_trans hadvanced.iterations hiterations
          · exact hadvanced.odd.trans hodd
        · exact absurd hidle hpc'
      · rcases readStep_log h with ⟨hrunning, _⟩ | ⟨_, hnew⟩
        · exact absurd hpc' hrunning
        · apply Since.returned r' hpc' (by rw [hnew, hlog])
          · exact Nat.le_trans hended.iterations hiterations
          · exact hended.odd.trans hodd
  | returned r hpc hlog hiterations hodd =>
      cases readStep_idle hpc h
      rcases Reader.beginCall_inv h with ⟨_, rfl⟩
      have hpast : r₀.log.length < r.log.length := by lia
      refine Since.past _ hpast ?_
      rintro (⟨_, hsame⟩ | ⟨hidle, _⟩)
      · dsimp only at hsame
        lia
      · dsimp only at hidle
        split at hidle <;> cases hidle
  | past r hlog hother =>
      rcases readStep_log h with ⟨hpc', hsame⟩ | ⟨hpc', hnew⟩
      · apply Since.past r' (by lia)
        rintro (⟨_, hlength⟩ | ⟨hidle, _⟩)
        · lia
        · exact absurd hidle hpc'
      · apply Since.past r' (by lia)
        rintro (⟨hrunning, _⟩ | ⟨_, hlength⟩)
        · exact absurd hpc' hrunning
        · lia

/-!
## Runs in which the producer rests
-/

def isPublish : Action m Word -> Bool
  | Action.read _ _ => false
  | Action.clone _ _ => false
  | _ => true

def isReadBy (c : Nat) : Action m Word -> Bool
  | Action.read d _ => decide (d = c)
  | _ => false

def SlotRests (s : System cap m Word) (r : Reader W m Word) : Prop :=
  forall wPos value written,
    s.publishPc = PublishPc.writeData wPos value written ->
      cap.slotIndex wPos ≠ r.thread.state.slot cap

theorem step_queue {a : Action m Word} (ha : isPublish a = false)
    (h : s.step a = some s') : s'.queue = s.queue := by
  cases a with
  | read c b =>
      rcases read_inv h with ⟨_, _, _, _, rfl⟩
      rfl
  | clone parent child =>
      rcases clone_inv h with ⟨_, _, _, _, _, rfl⟩
      rfl
  | _ => cases ha

/-- A step is one of reader `c`, or leaves the reader as it is. -/
theorem step_reader {a : Action m Word} {c : Nat} (h : s.step a = some s')
    (hr : s.readers c = some r) :
    (exists b r', a = Action.read c b ∧ s.readStep r b = some r' ∧
      s'.readers c = some r') ∨
    (isReadBy c a = false ∧ s'.readers c = some r) := by
  cases a with
  | publishCall value =>
      rcases publishCall_inv h with ⟨_, rfl⟩
      exact Or.inr ⟨rfl, hr⟩
  | publishStoreOdd =>
      rcases publishStoreOdd_inv h with ⟨_, _, _, rfl⟩
      exact Or.inr ⟨rfl, hr⟩
  | publishWriteWord i =>
      rcases publishWriteWord_inv h with ⟨_, _, _, _, _, rfl⟩
      exact Or.inr ⟨rfl, hr⟩
  | publishStoreEven =>
      rcases publishStoreEven_inv h with ⟨_, _, _, _, _, rfl⟩
      exact Or.inr ⟨rfl, hr⟩
  | publishStoreCursor =>
      rcases publishStoreCursor_inv h with ⟨_, _, rfl⟩
      exact Or.inr ⟨rfl, hr⟩
  | read d b =>
      rcases read_inv h with ⟨r₁, r', hd, hstep, rfl⟩
      by_cases hdc : d = c
      · subst hdc
        rw [hr] at hd
        cases hd
        exact Or.inl ⟨b, r', rfl, hstep, Function.update_self _ _ _⟩
      · right
        exact ⟨decide_eq_false hdc,
          (Function.update_of_ne (Ne.symm hdc) _ _).trans hr⟩
  | clone parent child =>
      rcases clone_inv h with ⟨_, r', _, hnone, _, rfl⟩
      right
      exists rfl
      have hne : c ≠ child := by
        intro heq
        rw [← heq, hr] at hnone
        cases hnone
      exact (Function.update_of_ne hne _ _).trans hr

theorem seq_even_of_rests [Zero Word] (hring : Ring s)
    (hrests : SlotRests s r) :
    (s.queue.slots (r.thread.state.slot cap)).seq &&& 1#W ≠ 1#W := by
  let j := r.thread.state.slot cap
  have hj := cap.slotOf_val j
  change (s.queue.slots j).seq &&& 1#W ≠ 1#W
  rw [← hj]
  rcases Nat.lt_or_ge j.val s.opened with hlt | hge
  · rcases exists_last_opened cap hlt with ⟨e, hmod, _, hopened, hlast⟩
    rw [← cap.slotOf_eq_iff.mpr hmod]
    rcases Nat.lt_or_ge e s.stamped with hstamped | hopen
    · have hlength := hring.opened_le
      have hget := List.getElem?_eq_getElem
        (show e < s.published.length by lia)
      rw [hring.settled.holds e _ hstamped hlast hget]
      exact Words.odd_test_even cap.width_pos (e + 1)
    · rcases writing_of_open hopened hopen with
        ⟨heq, wPos, value, written, hpc⟩
      have hwPos := (hring.writeData wPos value written hpc).left
      have hsame : cap.slotOf e = j := (cap.slotOf_eq_iff.mpr hmod).trans hj
      apply absurd hsame
      rw [heq, Capacity.slotOf, ← hwPos]
      exact hrests wPos value written hpc
  · rw [hring.settled.fresh j.val hge j.isLt]
    exact Words.odd_test_even cap.width_pos 0

theorem Since.inCall {seq : BitVec W} (h : Since seq r r')
    (hin : InCall r r') :
    r'.stats.iterations ≤ iterationsBefore r + 1 ∧
      r'.stats.oddIterations = oddBefore r := by
  cases h with
  | waiting hpc =>
      rcases hin with ⟨hrunning, _⟩ | ⟨_, hlength⟩
      · exact absurd hpc hrunning
      · lia
  | running r' hpc hlog hcursor hiterations hodd =>
      exact ⟨Nat.le_of_add_right_le hiterations, hodd⟩
  | returned r' hpc hlog hiterations hodd => exact ⟨hiterations, hodd⟩
  | past r' hlog hother => exact absurd hin hother

section Rest

variable {c : Nat}

def readerLeft (seq : BitVec W) (c : Nat) (s : System cap m Word) : Nat :=
  match s.readers c with
  | some r => r.thread.pc.stepsLeft seq
  | none => 0

def NotReturned (q : Queue cap m Word) (c : Nat) (r : Reader W m Word)
    (s : System cap m Word) : Prop :=
  s.queue = q ∧ exists r', s.readers c = some r' ∧
    r'.log.length = r.log.length ∧
    r'.thread.state.readCursor = r.thread.state.readCursor

def HasReturned (c : Nat) (r : Reader W m Word) (s : System cap m Word) :
    Prop :=
  exists r', s.readers c = some r' ∧ r.log.length < r'.log.length

theorem HasReturned.step (hs : HasReturned c r s) {a : Action m Word}
    (h : s.step a = some s') : HasReturned c r s' := by
  rcases hs with ⟨r₁, hr₁, hlog⟩
  rcases step_reader h hr₁ with ⟨b, r₂, _, hstep, hr₂⟩ | ⟨_, hr₂⟩
  · refine ⟨r₂, hr₂, ?_⟩
    rcases readStep_log hstep with ⟨_, hlength⟩ | ⟨_, hlength⟩
    · lia
    · lia
  · exact ⟨r₁, hr₂, hlog⟩

variable [Zero Word]

theorem measure_readerLeft {q : Queue cap m Word} {seq : BitVec W}
    (hseq : (q.slots (r.thread.state.slot cap)).seq = seq)
    (heven : seq &&& 1#W ≠ 1#W) :
    Machine.Measure (machine cap m Word) (fun a => isPublish a = false)
      (isReadBy c) (NotReturned q c r) (HasReturned c r)
      (readerLeft seq c) where
  keeps _ _ _ hs h := hs.step h
  lowers s a s' hs hallowed hown h := by
    rcases hs with ⟨rfl, r₁, hr₁, hlog, hcursor⟩
    have hqueue := step_queue hallowed h
    rcases step_reader h hr₁ with ⟨b, r₂, _, hstep, hr₂⟩ | ⟨hother, _⟩
    · have hslot : (s.queue.slots (r₁.thread.state.slot cap)).seq = seq := by
        rw [← hseq, ConsumerState.slot, ConsumerState.slot, hcursor]
      rcases readStep_log hstep with ⟨_, hlength⟩ | ⟨_, hlength⟩
      · right
        have hless : r₂.thread.pc.stepsLeft seq < r₁.thread.pc.stepsLeft seq ∧
            r₂.thread.state.readCursor = r₁.thread.state.readCursor := by
          by_cases hpc : r₁.thread.pc = ReadPc.idle
          · cases readStep_idle hpc hstep
            rcases Reader.beginCall_inv hstep with ⟨_, rfl⟩
            refine ⟨?_, rfl⟩
            rw [hpc]
            dsimp only
            split
            · exact Nat.lt_succ_self _
            · exact Nat.lt_add_of_pos_right Nat.two_pos
          · rcases readStep_left hslot heven hpc hstep with
              ⟨_, hadvanced⟩ | ⟨hidle, _⟩
            · exact ⟨hadvanced.steps, hadvanced.cursor⟩
            · rcases readStep_log hstep with ⟨hrunning, _⟩ | ⟨_, hnew⟩
              · exact absurd hidle hrunning
              · lia
        refine ⟨⟨hqueue, r₂, hr₂, hlength.trans hlog,
          hless.right.trans hcursor⟩, ?_⟩
        unfold readerLeft
        rw [hr₁, hr₂]
        exact hless.left
      · exact Or.inl ⟨r₂, hr₂, by lia⟩
    · rw [hown] at hother
      cases hother
  leaves s a s' hs hallowed hown h := by
    rcases hs with ⟨rfl, r₁, hr₁, hlog, hcursor⟩
    have hqueue := step_queue hallowed h
    rcases step_reader h hr₁ with ⟨b, r₂, rfl, _, _⟩ | ⟨_, hr₂⟩
    · exact absurd rfl (of_decide_eq_false hown)
    · refine ⟨⟨hqueue, r₁, hr₂, hlog, hcursor⟩, ?_⟩
      unfold readerLeft
      rw [hr₁, hr₂]

theorem since_runFrom {seq : BitVec W}
    (hseq : (s.queue.slots (r.thread.state.slot cap)).seq = seq)
    (heven : seq &&& 1#W ≠ 1#W) (hr : s.readers c = some r)
    {actions : List (Action m Word)}
    (hactions : forall a, a ∈ actions -> isPublish a = false)
    (h : (machine cap m Word).runFrom s actions = some s') :
    exists r', s'.readers c = some r' ∧ Since seq r r' := by
  have hrun := Machine.runFrom_invariant_of_allowed
    (P := fun t => t.queue = s.queue ∧
      exists r', t.readers c = some r' ∧ Since seq r r')
    (by
      intro t a t' ht ha hstep
      rcases ht with ⟨hqueue, r₁, hr₁, hsince⟩
      refine ⟨(step_queue ha hstep).trans hqueue, ?_⟩
      rcases step_reader hstep hr₁ with ⟨b, r₂, _, hread, hr₂⟩ | ⟨_, hr₂⟩
      · refine ⟨r₂, hr₂, hsince.step ?_ heven hread⟩
        intro r₃ hcursor
        rw [hqueue, ← hseq, ConsumerState.slot, ConsumerState.slot, hcursor]
      · exact ⟨r₁, hr₂, hsince⟩)
    ⟨rfl, r, hr, Since.start seq r⟩ hactions h
  exact hrun.right

end Rest

/-!
## The bounds of a call
-/

/--
While fewer than `2 ^ (W - 1) - CAPACITY` publishes begin during a call, it
copies the payload once at most, and goes round twice at most besides the odd
iterations.  An odd number belongs to a later lap.  While the producer rests
outside of the slot one more iteration is enough, and the call returns.
-/
theorem try_read_bounded (cap : Capacity W) (m : Nat) (Word : Type _)
    [Zero Word] (s : System cap m Word)
    (hreach : (machine cap m Word).Reachable s) (c : Nat)
    (r : Reader W m Word) (hr : s.readers c = some r) :
    (r.thread.pc ≠ ReadPc.idle ->
      s.published.length + cap.size < r.stats.begunAtCall + 2 ^ (W - 1) ->
        r.stats.copies ≤ 1 ∧
        (forall seq1 copied, r.thread.pc = ReadPc.readData seq1 copied ->
          r.stats.copies = 0) ∧
        r.stats.iterations ≤ 2 + r.stats.oddIterations) ∧
    (r.thread.pc = ReadPc.idle -> forall e, r.log.getLast? = some e ->
      e.progress.begun + cap.size < r.stats.begunAtCall + 2 ^ (W - 1) ->
        r.stats.copies ≤ 1 ∧
        r.stats.iterations ≤ 2 + r.stats.oddIterations) ∧
    (r.thread.pc = ReadPc.loadSeq ->
      (s.queue.slots (r.thread.state.slot cap)).seq &&& 1#W = 1#W ->
        (exists wPos value written,
          s.publishPc = PublishPc.writeData wPos value written) ∧
        Nat.ModEq cap.size s.completed r.position ∧
        r.position + cap.size ≤ s.completed) ∧
    (r.thread.pc ≠ ReadPc.idle -> exists a s', s.read c a = some s') ∧
    (SlotRests s r -> forall actions s',
      (machine cap m Word).runFrom s actions = some s' ->
      (forall a, a ∈ actions -> isPublish a = false) ->
        exists r', s'.readers c = some r' ∧
          (2 * m + 4 ≤ actions.countP (isReadBy c) ->
            r.log.length < r'.log.length) ∧
          (InCall r r' ->
            r'.stats.iterations ≤ iterationsBefore r + 1 ∧
            r'.stats.oddIterations = oddBefore r)) := by
  have hcall := Calls.reachable hreach c r hr
  have hok := Readers.reachable hreach c r hr
  have hring := Ring.reachable hreach
  have hcounted := hcall.counted.le
  refine ⟨?_, ?_, ?_, ?_, ?_⟩
  · intro hpc hfew
    have honce := hcall.running hpc hfew
    have hcopies := honce.copies_le
    refine ⟨hcopies, ?_, by lia⟩
    intro seq1 copied hdata
    exact (honce.first seq1 copied hdata).left
  · intro hpc e hlast hfew
    have hcopies := hcall.returned hpc e hlast hfew
    exact ⟨hcopies, by lia⟩
  · intro hpc hodd
    have hlt := Nat.lt_of_lt_of_le (hok.cursors.past (by rw [hpc]; rfl))
      hok.cursors.cached_le
    rw [hok.cursors.slot] at hodd
    exact writing_of_odd hring hlt hodd
  · intro hpc
    rcases exists_readStep (s := s) hpc with ⟨a, r', hstep⟩
    refine ⟨a, s.setReader c r', ?_⟩
    rw [read, hr]
    dsimp only
    rw [hstep]
    rfl
  · intro hrests actions s' hrun hactions
    have heven := seq_even_of_rests hring hrests
    rcases since_runFrom rfl heven hr hactions hrun with ⟨r', hr', hsince⟩
    refine ⟨r', hr', ?_, hsince.inCall⟩
    intro henough
    have hleft : readerLeft (s.queue.slots (r.thread.state.slot cap)).seq c s <
        2 * m + 4 := by
      unfold readerLeft
      rw [hr]
      exact ReadPc.stepsLeft_lt _ _
    have hreturned := (measure_readerLeft rfl heven).goal_of_count
      ⟨rfl, r, hr, rfl, rfl⟩ hactions hrun (Nat.lt_of_lt_of_le hleft henough)
    rcases hreturned with ⟨r₁, hr₁, hlog⟩
    rw [hr'] at hr₁
    cases hr₁
    exact hlog

/-- A call whose only copy is overtaken takes two iterations. -/
theorem try_read_bounded_overtaken :
    exists s, (machine (⟨1#64, 0, rfl⟩ : Capacity 64) 1 Nat).run
        [Action.publishCall (fun _ => 10), Action.publishStoreOdd,
          Action.publishWriteWord 0, Action.publishStoreEven,
          Action.publishStoreCursor,
          Action.read 0 ReadAction.call, Action.read 0 ReadAction.loadWriteCursor,
          Action.read 0 ReadAction.loadSeq,
          Action.read 0 (ReadAction.loadWord 0),
          Action.publishCall (fun _ => 20), Action.publishStoreOdd,
          Action.publishWriteWord 0, Action.publishStoreEven,
          Action.publishStoreCursor, Action.read 0 ReadAction.loadSeq,
          Action.read 0 ReadAction.loadSeq,
          Action.read 0 ReadAction.loadWriteCursor] = some s ∧
      exists r, s.readers 0 = some r ∧
        [r.stats.copies, r.stats.iterations, r.stats.oddIterations] =
          [1, 2, 0] ∧
        r.stats.copies ≤ 1 ∧
        r.stats.iterations ≤ 2 + r.stats.oddIterations := by
  apply Machine.exists_run_of_map
    (fun s => (s.readers 0).bind (fun r => r.log.getLast?.map (fun e =>
      (r.thread.pc.pastCheck, r.thread.pc.stepsLeft 0#64,
        [e.progress.begun, r.stats.begunAtCall, r.stats.copies,
          r.stats.iterations, r.stats.oddIterations]))))
    (some (false, 4, [2, 1, 1, 2, 0])) (by decide +kernel)
  intro s hrun hshown
  rcases Option.bind_eq_some_iff.mp hshown with ⟨r, hr, hread⟩
  rcases Option.map_eq_some_iff.mp hread with ⟨e, he, hfields⟩
  simp only [Prod.mk.injEq, List.cons.injEq, and_true] at hfields
  rcases hfields with ⟨hpast, hleft, hbegun, hcalled, hcopies, hiterations,
    hodd⟩
  have hpc : r.thread.pc = ReadPc.idle := by
    cases hkind : r.thread.pc with
    | idle => rfl
    | loadWriteCursor =>
        rw [hkind] at hleft
        cases hleft
    | _ =>
        rw [hkind] at hpast
        cases hpast
  have hbound := (try_read_bounded _ 1 Nat s ⟨_, hrun⟩ 0 r hr).right.left hpc
    e he (by rw [hbegun, hcalled]; decide)
  exact ⟨r, hr, by rw [hcopies, hiterations, hodd], hbound⟩

end System
end Spmc
end LowLatency
