import LowLatency.Foundation.Progress
import LowLatency.Seqlock.FirstIteration
import Mathlib.Data.Set.Finite.Lattice

/-!
# Reads come to an end

A running read can always take a step.  Once the writes are over, the steps it
has left are bounded, so a read that is scheduled again and again returns.
-/

namespace LowLatency
namespace Seqlock

open Foundation

/-!
## The steps that a read has left
-/

namespace ReadPc

variable {m : Nat} {Word : Type _}

/--
The own steps before the load of `s2` that ends the call, while `seq` stays the
same.  A copy that began with another `s1` is made again.
-/
def stepsLeft (seq : BitVec 64) : ReadPc m Word -> Nat
  | idle => 0
  | loadSeq => m + 2
  | readData s1 copied => missing copied + 1 + (if s1 = seq then 0 else m + 3)
  | reloadSeq s1 _ => if s1 = seq then 0 else m + 3

variable {pc pc' : ReadPc m Word} {seq : BitVec 64}

theorem stepsLeft_gotSeq (heven : seq &&& 1#64 ≠ 1#64)
    (h : pc.gotSeq seq = some (pc', none)) :
    pc' ≠ idle ∧ pc'.stepsLeft seq < pc.stepsLeft seq := by
  rcases gotSeq_inv h with ⟨_, hodd, _⟩ | ⟨rfl, _, rfl, _⟩ |
    ⟨_, _, _, hout⟩ | ⟨s1, readAttempt, rfl, hne, rfl, _⟩
  · exact absurd hodd heven
  · constructor
    · exact nofun
    · rw [stepsLeft, stepsLeft, missing_none, if_pos rfl]
      lia
  · cases hout
  · constructor
    · exact nofun
    · rw [stepsLeft, stepsLeft, if_neg hne]
      lia

theorem stepsLeft_gotWord (seq : BitVec 64) {i : Fin m} {word : Word}
    (h : pc.gotWord i word = some pc') :
    pc' ≠ idle ∧ pc'.stepsLeft seq < pc.stepsLeft seq := by
  rcases gotWord_inv h with ⟨s1, copied, rfl, hnone, rfl⟩
  constructor
  · exact nofun
  · have hless := missing_update_lt hnone word
    rw [stepsLeft, stepsLeft]
    lia

theorem stepsLeft_fence (seq : BitVec 64) (h : pc.fence = some pc') :
    pc' ≠ idle ∧ pc'.stepsLeft seq < pc.stepsLeft seq := by
  rcases fence_inv h with ⟨s1, copied, attempt, rfl, _, rfl⟩
  constructor
  · exact nofun
  · rw [stepsLeft, stepsLeft]
    lia

theorem exists_next (h : pc ≠ idle) :
    (forall seq, exists out, pc.gotSeq seq = some out) ∨
    (exists i, forall word, exists pc', pc.gotWord i word = some pc') ∨
    exists pc', pc.fence = some pc' := by
  cases pc with
  | idle => exact absurd rfl h
  | loadSeq =>
      left
      intro seq
      dsimp only [gotSeq]
      split_ifs
      · exact ⟨_, rfl⟩
      · exact ⟨_, rfl⟩
  | readData s1 copied =>
      right
      rcases exists_missing_or_collect copied with ⟨i, hi⟩ | ⟨v, hv⟩
      · left
        exists i
        intro word
        dsimp only [gotWord]
        rw [hi]
        exact ⟨_, rfl⟩
      · right
        dsimp only [fence]
        rw [hv]
        exact ⟨_, rfl⟩
  | reloadSeq s1 readAttempt =>
      left
      intro seq
      dsimp only [gotSeq]
      split_ifs
      · exact ⟨_, rfl⟩
      · exact ⟨_, rfl⟩

end ReadPc

namespace System

variable {Id : Type _} {m : Nat} {Word : Type _}
variable {s s' : System Id m Word}

/-!
## Running reads
-/

structure Running (i : Id) (n : Nat) (s : System Id m Word) : Prop where
  pc : (s.readers i).pc ≠ ReadPc.idle
  returns : n ≤ s.returns.length

theorem Running.of_frame {i : Id} {n : Nat} (hs : Running i n s)
    (hreader : s'.readers i = s.readers i)
    (hreturns : exists more, s'.returns = s.returns ++ more) :
    Running i n s' := by
  constructor
  · rw [hreader]
    exact hs.pc
  · rcases hreturns with ⟨more, hmore⟩
    rw [hmore, List.length_append]
    exact Nat.le_add_right_of_le hs.returns

variable [DecidableEq Id]

theorem exists_read_step {i : Id} (hpc : (s.readers i).pc ≠ ReadPc.idle) :
    exists a s', s.read i a = some s' := by
  rcases ReadPc.exists_next hpc with hload | ⟨w, hword⟩ | ⟨pc, hfence⟩
  · exists ReadAction.loadSeq
    rcases hload s.lock.seq with ⟨⟨pc, out⟩, hgot⟩
    rw [read, readLoadSeq, hgot]
    cases out with
    | none => exact ⟨_, rfl⟩
    | some v => exact ⟨_, rfl⟩
  · exists ReadAction.loadWord w
    rcases hword (s.lock.data w) with ⟨pc, hgot⟩
    rw [read, readLoadWord, hgot]
    exact ⟨_, rfl⟩
  · exists ReadAction.fence
    rw [read, readFence, hfence]
    exact ⟨_, rfl⟩

theorem returns_step {a : Action Id m Word} (h : s.step a = some s') :
    exists more, s'.returns = s.returns ++ more := by
  cases a with
  | read j b => exact (read_frame h).right.right.left
  | _ =>
      rcases Advances.writer h (by intro i b hread; cases hread) with
        ⟨ha, _, _⟩
      exact ha.returns

theorem Running.moved {i : Id} {n : Nat} (hs : Running i n s)
    {pc : ReadPc m Word} (call : ReadCall) (hpc : pc ≠ ReadPc.idle)
    (hleft : s.lock.seq &&& 1#64 ≠ 1#64 ->
      pc.stepsLeft s.lock.seq < (s.readers i).pc.stepsLeft s.lock.seq) :
    Running i n (s.setReader i ⟨pc, call⟩) ∧
      (s.setReader i ⟨pc, call⟩).lock = s.lock ∧
      (s.setReader i ⟨pc, call⟩).writePc = s.writePc ∧
      (s.lock.seq &&& 1#64 ≠ 1#64 ->
        ((s.setReader i ⟨pc, call⟩).readers i).pc.stepsLeft s.lock.seq <
          (s.readers i).pc.stepsLeft s.lock.seq) := by
  have hreader := setReader_self s i ⟨pc, call⟩
  refine ⟨⟨?_, hs.returns⟩, rfl, rfl, ?_⟩
  · rw [hreader]
    exact hpc
  · rw [hreader]
    exact hleft

theorem Running.own_step {i : Id} {n : Nat} (hs : Running i n s)
    {b : ReadAction m} (h : s.read i b = some s') :
    ReturnedSince i n s' (fun _ => True) ∨
      (Running i n s' ∧ s'.lock = s.lock ∧ s'.writePc = s.writePc ∧
        (s.lock.seq &&& 1#64 ≠ 1#64 ->
          (s'.readers i).pc.stepsLeft s.lock.seq <
            (s.readers i).pc.stepsLeft s.lock.seq)) := by
  cases b with
  | call => exact absurd (readCall_inv h).left hs.pc
  | loadSeq =>
      rcases readLoadSeq_inv h with ⟨pc, hgot, rfl⟩ | ⟨pc, v, hgot, rfl⟩
      · right
        apply hs.moved
        · rcases ReadPc.gotSeq_inv hgot with ⟨_, _, rfl, _⟩ |
            ⟨_, _, rfl, _⟩ | ⟨_, _, _, hout⟩ | ⟨_, _, _, _, rfl, _⟩
          · exact nofun
          · exact nofun
          · cases hout
          · exact nofun
        · intro heven
          exact (ReadPc.stepsLeft_gotSeq heven hgot).right
      · left
        exact ReturnedSince.last hs.returns rfl rfl trivial
  | loadWord w =>
      rcases readLoadWord_inv h with ⟨pc, hgot, rfl⟩
      have hleft := ReadPc.stepsLeft_gotWord s.lock.seq hgot
      exact Or.inr (hs.moved _ hleft.left (fun _ => hleft.right))
  | fence =>
      rcases readFence_inv h with ⟨pc, hfence, rfl⟩
      have hleft := ReadPc.stepsLeft_fence s.lock.seq hfence
      exact Or.inr (hs.moved _ hleft.left (fun _ => hleft.right))

theorem Running.step {i : Id} {n : Nat} (hs : Running i n s)
    {a : Action Id m Word} (h : s.step a = some s') :
    ReturnedSince i n s' (fun _ => True) ∨ Running i n s' := by
  cases a with
  | read j b =>
      by_cases hj : j = i
      · subst hj
        rcases hs.own_step h with hreturned | ⟨hrunning, _⟩
        · exact Or.inl hreturned
        · exact Or.inr hrunning
      · rcases read_frame h with ⟨_, _, hreturns, hreaders⟩
        exact Or.inr (hs.of_frame (hreaders i (Ne.symm hj)) hreturns)
  | _ =>
      rcases Advances.writer h (by intro i b hread; cases hread) with
        ⟨ha, _, hreaders⟩
      exact Or.inr (hs.of_frame (by rw [hreaders]) ha.returns)

/-!
## Executions with finitely many writes
-/

def isReadBy (i : Id) : Action Id m Word -> Bool
  | Action.read j _ => decide (j = i)
  | _ => false

theorem measure_stepsLeft (initialValue : Payload m Word) (i : Id) (n : Nat) :
    Machine.Measure (machine Id initialValue)
      (fun a => forall value, a ≠ Action.writeCall value) (isReadBy i)
      (fun s => WriterOk s ∧ s.writePc = WritePc.idle ∧ Running i n s)
      (fun s => ReturnedSince i n s (fun _ => True))
      (fun s => (s.readers i).pc.stepsLeft s.lock.seq) where
  keeps s a s' hs h := hs.append (returns_step h)
  lowers s a s' hs hallowed hown h := by
    rcases hs with ⟨hw, hidle, hrunning⟩
    have heven : s.lock.seq &&& 1#64 ≠ 1#64 := by
      intro hodd
      have hopened := opened_of_odd hw hodd
      rw [hidle] at hopened
      cases hopened
    cases a with
    | read j b =>
        have hj : j = i := of_decide_eq_true hown
        subst hj
        rcases hrunning.own_step h with
          hreturned | ⟨hrunning', hlock, hpc, hless⟩
        · exact Or.inl hreturned
        · right
          refine ⟨⟨hw.read h, hpc.trans hidle, hrunning'⟩, ?_⟩
          rw [hlock]
          exact hless heven
    | _ => cases hown
  leaves s a s' hs hallowed hown h := by
    rcases hs with ⟨hw, hidle, hrunning⟩
    rcases exists_read_of_step hidle hallowed h with ⟨j, b, rfl⟩
    have hj : i ≠ j := Ne.symm (of_decide_eq_false hown)
    rcases read_frame h with ⟨hlock, hpc, hreturns, hreaders⟩
    have hsame := hreaders i hj
    refine ⟨⟨hw.read h, hpc.trans hidle, hrunning.of_frame hsame hreturns⟩, ?_⟩
    rw [hsame, hlock]

section Executions

variable {initialValue : Payload m Word}

/-- From some time on no write is in progress and none begins. -/
theorem exists_quiet (E : (machine Id initialValue).Execution)
    (hfinite : Set.Finite { n | exists value,
      E.action n = Action.writeCall value })
    (hfinish : forall n, exists k, n ≤ k ∧
      (E.state k).writePc = WritePc.idle) (n : Nat) :
    exists k, n ≤ k ∧ (E.state k).writePc = WritePc.idle ∧
      forall t, k ≤ t -> forall value, E.action t ≠ Action.writeCall value := by
  rcases hfinite.bddAbove with ⟨last, hlast⟩
  rcases hfinish (max n (last + 1)) with ⟨k, hk, hidle⟩
  refine ⟨k, Nat.le_trans (Nat.le_max_left _ _) hk, hidle, ?_⟩
  intro t ht value hwrite
  have hle : t ≤ last := hlast ⟨value, hwrite⟩
  have hmax := Nat.le_max_right n (last + 1)
  lia

/-- Finitely many writes that all finish do not keep a read from returning. -/
theorem exists_returned (E : (machine Id initialValue).Execution)
    (hfinite : Set.Finite { n | exists value,
      E.action n = Action.writeCall value })
    (hfinish : forall n, exists k, n ≤ k ∧
      (E.state k).writePc = WritePc.idle) {i : Id}
    (hagain : forall n, exists k, n ≤ k ∧ exists a,
      E.action k = Action.read i a) {n : Nat}
    (hpc : ((E.state n).readers i).pc ≠ ReadPc.idle) :
    exists k, n ≤ k ∧ ReturnedSince i (E.state n).returns.length (E.state k)
      (fun _ => True) := by
  rcases exists_quiet E hfinite hfinish n with ⟨k, hk, hidle, hquiet⟩
  have hrun := E.runFrom_actionsFrom n (k - n)
  rw [show n + (k - n) = k by lia] at hrun
  have hreached := Machine.runFrom_invariant
    (P := fun s => ReturnedSince i (E.state n).returns.length s
      (fun _ => True) ∨ Running i (E.state n).returns.length s)
    (by
      intro s a s' hs h
      rcases hs with hreturned | hrunning
      · exact Or.inl (hreturned.append (returns_step h))
      · exact hrunning.step h)
    (Or.inr ⟨hpc, Nat.le_refl _⟩) hrun
  rcases hreached with hreturned | hrunning
  · exact ⟨k, hk, hreturned⟩
  · have hown : forall t, exists l, t ≤ l ∧
        isReadBy i (E.action l) = true := by
      intro t
      rcases hagain t with ⟨l, hle, a, ha⟩
      exists l
      constructor
      · exact hle
      · rw [ha]
        exact decide_eq_true rfl
    rcases E.exists_goal (measure_stepsLeft initialValue i _) hown
      ⟨WriterOk.reachable (E.reachable k), hidle, hrunning⟩ hquiet with
      ⟨l, hle, hreturned⟩
    exact ⟨l, Nat.le_trans hk hle, hreturned⟩

end Executions

/-!
## Lock freedom
-/

/--
Each discarded copy is paid for by an odd store during the read, and an
iteration is skipped only between the two stores of a write.  Without a write a
read returns from its first iteration, and it always returns when there are
finitely many writes, all of which finish.
-/
theorem reads_lock_free (Id : Type _) [DecidableEq Id]
    (initialValue : Payload m Word) :
    (forall s, (machine Id initialValue).Reachable s ->
      (forall i, (s.readers i).call.opened + (s.readers i).call.discarded ≤
        s.opened) ∧
      (forall e, e ∈ s.returns ->
        e.call.opened + e.call.discarded ≤ e.opened)) ∧
    (forall s, (machine Id initialValue).Reachable s -> forall i s',
      (s.readers i).pc = ReadPc.loadSeq ->
      s.read i ReadAction.loadSeq = some s' ->
      (s'.readers i).pc = ReadPc.loadSeq -> s.writePc.opened = 1) ∧
    (forall s, (machine Id initialValue).Reachable s ->
      s.writePc = WritePc.idle -> forall i, (s.readers i).pc = ReadPc.idle ->
      forall actions s',
        (machine Id initialValue).runFrom s actions = some s' ->
        (forall value, Action.writeCall value ∉ actions) ->
        (stepsOf i actions).length = m + 4 ->
        (exists words, words.Perm (List.finRange m) ∧
          stepsOf i actions = oneIteration words) ∧
        (s'.readers i).pc = ReadPc.idle ∧
        ReturnedSince i s.returns.length s'
          (fun e => e.call.discarded = 0)) ∧
    (forall (s : System Id m Word) i, (s.readers i).pc ≠ ReadPc.idle ->
      exists a s', s.read i a = some s') ∧
    (forall E : (machine Id initialValue).Execution,
      Set.Finite { n | exists value, E.action n = Action.writeCall value } ->
      (forall n, exists k, n ≤ k ∧ (E.state k).writePc = WritePc.idle) ->
      forall i,
        (forall n, exists k, n ≤ k ∧ exists a,
          E.action k = Action.read i a) ->
        forall n, ((E.state n).readers i).pc ≠ ReadPc.idle ->
          exists k, n ≤ k ∧ ReturnedSince i (E.state n).returns.length
            (E.state k) (fun _ => True)) := by
  refine ⟨?_, ?_, ?_, ?_, ?_⟩
  · intro s hs
    have hpaid := RetriesPaid.reachable hs
    exact ⟨hpaid.running, hpaid.returns⟩
  · intro s hs i s' hpc h hskip
    exact opened_of_skip (WriterOk.reachable hs) hpc h hskip
  · intro s hs hwriter i hidle actions s' h hquiet hlength
    have hdone := Undisturbed.runFrom hs hwriter hidle h hquiet
      (Nat.le_of_eq hlength)
    exact hdone.whole hlength
  · intro s i hpc
    exact exists_read_step hpc
  · intro E hfinite hfinish i hagain n hpc
    exact exists_returned E hfinite hfinish hagain hpc

theorem exists_reading_alone {initialValue : Payload m Word} (i : Id)
    (hs : (machine Id initialValue).Reachable s)
    (hidle : s.writePc = WritePc.idle) :
    exists E : (machine Id initialValue).Execution, E.state 0 = s ∧
      forall n, (E.state n).writePc = WritePc.idle ∧
        exists a, E.action n = Action.read i a := by
  apply Machine.Execution.exists_of_enabled
    (P := fun s => s.writePc = WritePc.idle)
    (Q := fun a => exists b, a = Action.read i b) ?_ hs hidle
  intro s hidle
  have hread : exists a s', s.read i a = some s' := by
    by_cases hpc : (s.readers i).pc = ReadPc.idle
    · exists ReadAction.call
      rw [read, readCall, hpc]
      exact ⟨_, rfl⟩
    · exact exists_read_step hpc
  rcases hread with ⟨a, s', h⟩
  exact ⟨Action.read i a, s', ⟨a, rfl⟩, h,
    (read_frame h).right.left.trans hidle⟩

/--
A write in the middle of a read spoils one copy and makes the read skip one
iteration, and a lone reader returns.
-/
theorem reads_lock_free_overtaken :
    (exists s, (machine Unit (fun _ : Fin 1 => 0)).run
      [Action.read () ReadAction.call, Action.read () ReadAction.loadSeq,
        Action.read () (ReadAction.loadWord 0),
        Action.writeCall (fun _ => 1), Action.writeStoreOdd,
        Action.read () ReadAction.fence, Action.read () ReadAction.loadSeq,
        Action.read () ReadAction.loadSeq, Action.writeFence,
        Action.writeWord 0, Action.writeStoreEven,
        Action.read () ReadAction.loadSeq,
        Action.read () (ReadAction.loadWord 0),
        Action.read () ReadAction.fence, Action.read () ReadAction.loadSeq] =
          some s ∧
      (s.returns.map (fun e => (e.value 0, e.call.opened, e.call.discarded,
        e.opened)) = [(1, 0, 1, 1)] ∧
      forall e, e ∈ s.returns ->
        e.call.opened + e.call.discarded ≤ e.opened)) ∧
    (exists E : (machine Unit (fun _ : Fin 1 => 0)).Execution, exists k,
      ReturnedSince () (E.state 0).returns.length (E.state k)
        (fun _ => True)) := by
  constructor
  · apply Machine.exists_run_of_map (fun s => s.returns.map (fun e =>
      (e.value 0, e.call.opened, e.call.discarded, e.opened)))
      [(1, 0, 1, 1)] (by decide +kernel)
    intro s hrun hshown
    exact ⟨hshown, ((reads_lock_free Unit _).left s ⟨_, hrun⟩).right⟩
  · have hcall : (System.new Unit (fun _ : Fin 1 => 0)).read ()
        ReadAction.call = some _ := rfl
    rcases exists_reading_alone () (Machine.Reachable.step
      (M := machine Unit (fun _ : Fin 1 => 0))
      (a := Action.read () ReadAction.call) (Machine.reachable_start _) hcall)
      rfl with ⟨E, hstart, hE⟩
    have hfinite : Set.Finite { n | exists value,
        E.action n = Action.writeCall value } := by
      apply Set.finite_empty.subset
      rintro n ⟨value, hwrite⟩
      rcases (hE n).right with ⟨a, ha⟩
      rw [ha] at hwrite
      cases hwrite
    have hpc : ((E.state 0).readers ()).pc ≠ ReadPc.idle := by
      rw [hstart]
      exact nofun
    rcases (reads_lock_free Unit _).right.right.right.right E hfinite
      (fun n => ⟨n, Nat.le_refl n, (hE n).left⟩) ()
      (fun n => ⟨n, Nat.le_refl n, (hE n).right⟩) 0 hpc with
      ⟨k, _, hreturned⟩
    exact ⟨E, k, hreturned⟩

end System
end Seqlock
end LowLatency
