import LowLatency.Spmc.LapLimit
import LowLatency.Spmc.Termination

/-!
# A call that is overrun by the counter

The number of a slot comes back after `2 ^ (W - 1)` positions.  As many as
`CAPACITY` of these can have begun before the call, so `2 ^ (W - 1) - CAPACITY`
during the call are enough to make it copy twice.  A copy that was overtaken
before the producer came to rest is retried while it rests.
-/

namespace LowLatency
namespace Spmc

open Foundation

namespace System

variable {W : Nat} {cap : Capacity W} {Word : Type _} [Zero Word]
variable {s : System cap 1 Word} {c : Nat} {r : Reader W 1 Word}

theorem copyAgain_reads (hpc : r.thread.pc = ReadPc.loadSeq)
    (heven : (s.queue.slots (r.thread.state.slot cap)).seq &&& 1#W ≠ 1#W)
    (hexpected : (s.queue.slots (r.thread.state.slot cap)).seq =
      r.thread.state.expectedSeq) :
    exists r' e, Reads s c r [ReadAction.loadSeq, ReadAction.loadWord 0,
        ReadAction.loadSeq] r' ∧
      r'.thread.pc = ReadPc.idle ∧ r'.log = r.log ++ [e] ∧
      e.progress = s.progress ∧
      r'.stats.begunAtCall = r.stats.begunAtCall ∧
      r'.stats.copies = r.stats.copies + 1 := by
  let slot := s.queue.slots (r.thread.state.slot cap)
  let stats : CallStats :=
    { r.stats with iterations := r.stats.iterations + 1 }
  let copying (copied : Fin 1 -> Option Word) : Reader W 1 Word := { r with
    thread := ⟨r.thread.state, ReadPc.readData slot.seq copied⟩
    stats := stats }
  have hfirst : s.readStep r ReadAction.loadSeq =
      some (copying (fun _ => none)) := by
    have hodd : (slot.seq &&& 1#W == 1#W) = false := by simpa using heven
    have hsame : (slot.seq != r.thread.state.expectedSeq) = false := by
      simpa using hexpected
    simp only [readStep, Reader.gotSeq, ReadThread.gotSeq, hpc]
    rw [hodd, hsame]
    simp only [Bool.false_eq_true, if_false, Option.map_some,
      CallStats.countSeq]
    rw [hodd]
    rfl
  have hword : s.readStep (copying (fun _ => none)) (ReadAction.loadWord 0) =
      some (copying (fun _ => some (slot.data 0))) := by
    have hone : Function.update (fun _ : Fin 1 => (none : Option Word)) 0
        (some (slot.data 0)) = fun _ => some (slot.data 0) := by
      funext i
      rw [Fin.eq_zero i, Function.update_self]
    rw [← hone]
    rfl
  have hlast : s.readStep (copying (fun _ => some (slot.data 0)))
      ReadAction.loadSeq = some { r with
        thread := ⟨r.thread.state.advance, ReadPc.idle⟩
        position := r.position + 1
        log := r.log ++ [⟨r.position, ReadResult.value (fun _ => slot.data 0),
          s.progress⟩]
        stats := { stats with copies := r.stats.copies + 1 } } := by
    have hcollect : collect (fun _ : Fin 1 => some (slot.data 0)) =
        some (fun _ => slot.data 0) := collect_eq_some_iff.mpr (fun _ => rfl)
    simp only [readStep, Reader.gotSeq, ReadThread.gotSeq, copying, hcollect]
    rw [if_pos (beq_self_eq_true _)]
    rfl
  exact ⟨_, _, Reads.cons hfirst (Reads.cons hword
    (Reads.cons hlast Reads.refl)), rfl, rfl, rfl, rfl, rfl⟩

/-!
## Two copies, and a retry
-/

section TwoSlots

def twoSlots : Capacity 64 :=
  ⟨2#64, 1, rfl⟩

def onlyWord : Fin 1 :=
  ⟨0, Nat.one_pos⟩

def publishOne (word : Nat) : List (Action 1 Nat) :=
  [Action.publishCall (fun _ => word), Action.publishStoreOdd,
    Action.publishWriteWord onlyWord, Action.publishStoreEven,
    Action.publishStoreCursor]

def isLoadSeq : ReadPc 64 1 Nat -> Nat
  | ReadPc.loadSeq => 1
  | _ => 0

def isReadData : ReadPc 64 1 Nat -> Bool
  | ReadPc.readData _ _ => true
  | _ => false

def overtakenCopy : List (Action 1 Nat) :=
  publishOne 10 ++ publishOne 11 ++
    [Action.publishCall (fun _ => 12), Action.read 0 ReadAction.call,
      Action.read 0 ReadAction.loadWriteCursor,
      Action.read 0 ReadAction.loadSeq,
      Action.read 0 (ReadAction.loadWord onlyWord),
      Action.publishStoreOdd, Action.publishWriteWord onlyWord,
      Action.publishStoreEven, Action.publishStoreCursor]

def rejectedCopy : List (Action 1 Nat) :=
  overtakenCopy ++ [Action.read 0 ReadAction.loadSeq]

def retriedCopy : List (Action 1 Nat) :=
  overtakenCopy ++
    [Action.read 0 ReadAction.loadSeq, Action.read 0 ReadAction.loadSeq]

theorem overtakenCopy_run :
    exists s r, (machine twoSlots 1 Nat).run overtakenCopy = some s ∧
      s.publishPc = PublishPc.idle ∧ s.readers 0 = some r ∧
      (exists seq1 copied, r.thread.pc = ReadPc.readData seq1 copied) ∧
      r.log.length = 0 ∧ r.stats.iterations = 1 := by
  have hrun : exists s, (machine twoSlots 1 Nat).run overtakenCopy = some s ∧
      (s.readers 0).map (fun r => (isReadData r.thread.pc,
        [s.publishPc.begun, r.log.length, r.stats.iterations])) =
          some (true, [0, 0, 1]) := by
    apply Machine.exists_run_of_map (fun s => (s.readers 0).map (fun r =>
      (isReadData r.thread.pc,
        [s.publishPc.begun, r.log.length, r.stats.iterations])))
      (some (true, [0, 0, 1])) (by decide +kernel)
    intro s _ hshown
    exact hshown
  rcases hrun with ⟨s, hrun, hreader⟩
  rcases Option.map_eq_some_iff.mp hreader with ⟨r, hr, hfields⟩
  simp only [Prod.mk.injEq, List.cons.injEq, and_true] at hfields
  rcases hfields with ⟨hcopying, hidle, hlog, hiterations⟩
  refine ⟨s, r, hrun, ?_, hr, ?_, hlog, hiterations⟩
  · cases hpc : s.publishPc with
    | idle => rfl
    | _ =>
        rw [hpc] at hidle
        cases hidle
  · cases hpc : r.thread.pc with
    | readData seq1 copied => exact ⟨seq1, copied, rfl⟩
    | _ =>
        rw [hpc] at hcopying
        cases hcopying

theorem retriedCopy_run :
    exists s r, (machine twoSlots 1 Nat).run retriedCopy = some s ∧
      s.readers 0 = some r ∧ r.thread.pc ≠ ReadPc.idle ∧
      r.log.length = 0 ∧ r.stats.iterations = 2 := by
  have hrun : exists s, (machine twoSlots 1 Nat).run retriedCopy = some s ∧
      (s.readers 0).map (fun r => (r.thread.pc.pastCheck,
        [r.log.length, r.stats.iterations])) = some (true, [0, 2]) := by
    apply Machine.exists_run_of_map (fun s => (s.readers 0).map (fun r =>
      (r.thread.pc.pastCheck, [r.log.length, r.stats.iterations])))
      (some (true, [0, 2])) (by decide +kernel)
    intro s _ hshown
    exact hshown
  rcases hrun with ⟨s, hrun, hreader⟩
  rcases Option.map_eq_some_iff.mp hreader with ⟨r, hr, hfields⟩
  simp only [Prod.mk.injEq, List.cons.injEq, and_true] at hfields
  rcases hfields with ⟨hpast, hlog, hiterations⟩
  refine ⟨s, r, hrun, hr, ?_, hlog, hiterations⟩
  intro hidle
  rw [hidle] at hpast
  cases hpast

theorem rejectedCopy_run :
    exists s r, (machine twoSlots 1 Nat).run rejectedCopy = some s ∧
      s.publishPc = PublishPc.idle ∧ s.completed = 3 ∧
      s.readers 0 = some r ∧ r.thread.pc = ReadPc.loadSeq ∧
      r.position = 0 ∧ r.stats.begunAtCall = 3 ∧ r.stats.copies = 1 := by
  have hrun : exists s, (machine twoSlots 1 Nat).run rejectedCopy = some s ∧
      (s.readers 0).map (fun r => [isLoadSeq r.thread.pc, r.position,
        r.stats.begunAtCall, r.stats.copies, s.publishPc.begun,
        s.completed]) = some [1, 0, 3, 1, 0, 3] := by
    apply Machine.exists_run_of_map (fun s => (s.readers 0).map (fun r =>
      [isLoadSeq r.thread.pc, r.position, r.stats.begunAtCall, r.stats.copies,
        s.publishPc.begun, s.completed]))
      (some [1, 0, 3, 1, 0, 3]) (by decide +kernel)
    intro s _ hshown
    exact hshown
  rcases hrun with ⟨s, hrun, hreader⟩
  rcases Option.map_eq_some_iff.mp hreader with ⟨r, hr, hfields⟩
  simp only [List.cons.injEq, and_true] at hfields
  rcases hfields with ⟨hloading, hposition, hbegun, hcopies, hidle, hcompleted⟩
  refine ⟨s, r, hrun, ?_, hcompleted, hr, ?_, hposition, hbegun, hcopies⟩
  · cases hpc : s.publishPc with
    | idle => rfl
    | _ =>
        rw [hpc] at hidle
        cases hidle
  · cases hpc : r.thread.pc with
    | loadSeq => rfl
    | _ =>
        rw [hpc] at hloading
        cases hloading

theorem overrun_run {n : Nat} (hodd : n % 2 = 0) (hround : 2 ^ 63 ∣ n + 2) :
    exists s r e, (machine twoSlots 1 Nat).Reachable s ∧
      s.readers 0 = some r ∧ r.thread.pc = ReadPc.idle ∧
      r.log.getLast? = some e ∧ e.progress.begun = n + 3 ∧
      r.stats.begunAtCall = 3 ∧ r.stats.copies = 2 := by
  rcases rejectedCopy_run with ⟨s₁, r₁, hrun₁, hidle₁, hcompleted₁, hr₁, hpc₁,
    hposition₁, hbegun₁, hcopies₁⟩
  rcases publishes_run (s := s₁) (List.replicate n (fun _ => 14)) hidle₁ with
    ⟨actions, s₂, hrun₂, hidle₂, hreaders₂, hpublished₂, hcompleted₂⟩
  have hreach₁ : (machine twoSlots 1 Nat).Reachable s₁ := ⟨_, hrun₁⟩
  have hreach₂ := hreach₁.runFrom hrun₂
  have hring := Ring.reachable hreach₂
  have hr₂ : s₂.readers 0 = some r₁ := by
    rw [hreaders₂]
    exact hr₁
  have hcursors := (Readers.reachable hreach₂ 0 r₁ hr₂).cursors
  rw [List.length_replicate, hcompleted₁] at hcompleted₂
  have hlength : s₂.published.length = n + 3 := by
    rw [hring.length, hidle₂, hcompleted₂]
    exact Nat.add_comm 3 n
  have hopened : s₂.opened = n + 3 := by
    rw [opened, hidle₂, hcompleted₂]
    exact Nat.add_comm 3 n
  have hstamped : s₂.stamped = n + 3 := by
    rw [stamped, hidle₂, hcompleted₂]
    exact Nat.add_comm 3 n
  have hget := List.getElem?_eq_getElem
    (show n + 2 < s₂.published.length by lia)
  have hsame : twoSlots.slotOf (n + 2) = twoSlots.slotOf r₁.position := by
    rw [hposition₁, Capacity.slotOf_eq_iff]
    have hsize : twoSlots.size = 2 := rfl
    rw [hsize, Nat.ModEq]
    lia
  have hslot : (s₂.queue.slots (r₁.thread.state.slot twoSlots)).seq =
      BitVec.ofNat 64 (2 * (n + 2) + 2) := by
    have hsize : twoSlots.size = 2 := rfl
    rw [hcursors.slot, ← hsame,
      hring.settled.holds (n + 2) _ (by lia) (by lia) hget]
  have hexpected : (s₂.queue.slots (r₁.thread.state.slot twoSlots)).seq =
      r₁.thread.state.expectedSeq := by
    rw [hslot, hcursors.expectedSeq, hposition₁,
      show 2 * (n + 2) + 2 = 2 * (n + 2 + 1) by lia,
      show 2 * 0 + 2 = 2 * (0 + 1) by lia,
      Words.ofNat_two_mul_eq_iff (by decide)]
    exact ((Nat.modEq_zero_iff_dvd.mpr hround)).add_right 1
  have heven : (s₂.queue.slots (r₁.thread.state.slot twoSlots)).seq &&&
      1#64 ≠ 1#64 := by
    rw [hslot]
    exact Words.odd_test_even (by decide) (n + 2 + 1)
  rcases copyAgain_reads (c := 0) hpc₁ heven hexpected with
    ⟨r₃, e, hreads, hpc₃, hlog₃, hprogress, hbegun₃, hcopies₃⟩
  have hself : s₂.setReader 0 r₁ = s₂ := by
    simp only [setReader, ← hr₂, Function.update_eq_self]
  rw [Reads, hself] at hreads
  have hr₃ : (s₂.setReader 0 r₃).readers 0 = some r₃ := by
    simp only [setReader, Function.update_self]
  refine ⟨_, r₃, e, hreach₂.runFrom hreads, hr₃, hpc₃, ?_, ?_, ?_, ?_⟩
  · rw [hlog₃, List.getLast?_concat]
  · rw [hprogress]
    exact hlength
  · rw [hbegun₃, hbegun₁]
  · rw [hcopies₃, hcopies₁]

/--
Counting only the publishes that begin during the call is not enough: in a ring
of two slots `2 ^ 63 - 2` of them can make a call copy the payload twice.  A
call that stands in its copy can retry although the producer rests.
-/
theorem copies_twice_or_retries :
    Not (forall s, (machine twoSlots 1 Nat).Reachable s ->
      forall c r, s.readers c = some r -> r.thread.pc = ReadPc.idle ->
        forall e, r.log.getLast? = some e ->
          e.progress.begun < r.stats.begunAtCall + 2 ^ 63 ->
            r.stats.copies ≤ 1) ∧
    Not (forall s, (machine twoSlots 1 Nat).Reachable s ->
      forall c r, s.readers c = some r ->
        (exists seq1 copied, r.thread.pc = ReadPc.readData seq1 copied) ->
        SlotRests s r -> forall actions s',
          (machine twoSlots 1 Nat).runFrom s actions = some s' ->
          (forall a, a ∈ actions -> isPublish a = false) ->
          forall r', s'.readers c = some r' -> InCall r r' ->
            r'.stats.iterations ≤ r.stats.iterations) := by
  constructor
  · intro hclaim
    rcases overrun_run (n := 2 ^ 63 - 2) (by decide) (by decide) with
      ⟨s, r, e, hreach, hr, hpc, hlast, hbegun, hcalled, hcopies⟩
    have hone := hclaim s hreach 0 r hr hpc e hlast
      (by rw [hbegun, hcalled]; decide)
    rw [hcopies] at hone
    exact absurd hone (by decide)
  · intro hclaim
    rcases overtakenCopy_run with
      ⟨s, r, hrun, hidle, hr, hcopying, hlog, hiterations⟩
    rcases retriedCopy_run with
      ⟨s', r', hrun', hr', hpc', hlog', hiterations'⟩
    have hrests : SlotRests s r := by
      intro wPos value written hwriting
      rw [hidle] at hwriting
      cases hwriting
    have hretry : (machine twoSlots 1 Nat).runFrom s
        [Action.read 0 ReadAction.loadSeq, Action.read 0 ReadAction.loadSeq] =
          some s' := by
      rw [Machine.run, retriedCopy, Machine.runFrom_append] at hrun'
      rw [Machine.run] at hrun
      rw [hrun] at hrun'
      exact hrun'
    have hone := hclaim s ⟨_, hrun⟩ 0 r hr hcopying hrests _ s' hretry
      (by decide) r' hr' (Or.inl ⟨hpc', hlog'.trans hlog.symm⟩)
    rw [hiterations, hiterations'] at hone
    exact absurd hone (by decide)

end TwoSlots

end System
end Spmc
end LowLatency
