import LowLatency.Seqlock.Writer

/-!
# The readers at every step

A copy in progress belongs to the version that was current when `s1` was
loaded, until the next odd store.  A finished read therefore returned the
version that was current at its last load, unless `seq` has gone all the way
round in between.
-/

namespace LowLatency
namespace Seqlock

open Foundation
open Foundation.Linearizability

namespace System

variable {Id : Type _} {m : Nat} {Word : Type _}
variable {s s' : System Id m Word}

/-!
## Progress of the system
-/

structure Advances (s s' : System Id m Word) : Prop where
  completed : s.completed ≤ s'.completed
  opened : s.opened ≤ s'.opened
  versions : forall (a : Nat) (v : Payload m Word),
    s.versions[a]? = some v -> s'.versions[a]? = some v
  returns : exists more, s'.returns = s.returns ++ more

theorem Advances.writer {a : Action Id m Word} [DecidableEq Id]
    (h : s.step a = some s') (ha : forall i b, a ≠ Action.read i b) :
    Advances s s' ∧ s'.returns = s.returns ∧ s'.readers = s.readers := by
  cases a with
  | writeCall value =>
      rcases writeCall_inv h with ⟨hpc, rfl⟩
      refine ⟨⟨Nat.le_refl _, ?_, ?_, [], (List.append_nil _).symm⟩, rfl, rfl⟩
      · rw [System.opened, hpc]
        exact Nat.le_refl _
      · intro k v hget
        exact getElem?_append_of_eq_some hget _
  | writeStoreOdd =>
      rcases writeStoreOdd_inv h with ⟨s₀, value, hpc, rfl⟩
      refine ⟨⟨Nat.le_refl _, ?_, fun _ _ hget => hget, [],
        (List.append_nil _).symm⟩, rfl, rfl⟩
      rw [System.opened, hpc]
      exact Nat.le_succ _
  | writeFence =>
      rcases writeFence_inv h with ⟨s₀, value, hpc, rfl⟩
      refine ⟨⟨Nat.le_refl _, ?_, fun _ _ hget => hget, [],
        (List.append_nil _).symm⟩, rfl, rfl⟩
      rw [System.opened, hpc]
      exact Nat.le_refl _
  | writeWord i =>
      rcases writeWord_inv h with ⟨s₀, value, written, hpc, _, rfl⟩
      refine ⟨⟨Nat.le_refl _, ?_, fun _ _ hget => hget, [],
        (List.append_nil _).symm⟩, rfl, rfl⟩
      rw [System.opened, hpc]
      exact Nat.le_refl _
  | writeStoreEven =>
      rcases writeStoreEven_inv h with ⟨s₀, value, written, hpc, _, rfl⟩
      refine ⟨⟨Nat.le_succ _, ?_, fun _ _ hget => hget, [],
        (List.append_nil _).symm⟩, rfl, rfl⟩
      rw [System.opened, hpc]
      exact Nat.le_refl _
  | read i b => exact absurd rfl (ha i b)

/-!
## One reader
-/

/-- What a reader has copied since it loaded the word of version `a`. -/
def PcOk (versions : List (Payload m Word)) (opened completed : Nat)
    (call : ReadCall) : ReadPc m Word -> Prop
  | ReadPc.readData s1 copied =>
      exists a, s1 = BitVec.ofNat 64 (2 * a) ∧ call.opened ≤ a ∧
        a ≤ completed ∧ (opened ≤ a -> forall i word,
          copied i = some word ->
            exists value, versions[a]? = some value ∧ word = value i)
  | ReadPc.reloadSeq s1 readAttempt =>
      exists a, s1 = BitVec.ofNat 64 (2 * a) ∧ call.opened ≤ a ∧
        a ≤ completed ∧ (opened ≤ a -> versions[a]? = some readAttempt)
  | _ => True

structure CallOk (returns : List (ReadRecord Id m Word)) (call : ReadCall)
    (opened completed : Nat) : Prop where
  opened : call.opened ≤ opened
  returned : call.returned ≤ returns.length
  earlier : forall k e, k < call.returned -> returns[k]? = some e ->
    e.completed ≤ call.completed
  completed : call.completed ≤ completed

structure ReaderOk (s : System Id m Word) (r : Reader m Word) : Prop where
  pc : PcOk s.versions s.opened s.completed r.call r.pc
  call : CallOk s.returns r.call s.opened s.completed

structure RecordOk (s : System Id m Word) (e : ReadRecord Id m Word) :
    Prop where
  value : e.opened < e.call.opened + 2 ^ 63 ->
    s.versions[e.completed]? = some e.value
  call : CallOk s.returns e.call e.opened e.completed
  completed : e.completed ≤ s.completed

theorem PcOk.advance (ha : Advances s s') {call : ReadCall}
    {pc : ReadPc m Word}
    (hpc : PcOk s.versions s.opened s.completed call pc) :
    PcOk s'.versions s'.opened s'.completed call pc := by
  cases pc with
  | idle => exact trivial
  | loadSeq => exact trivial
  | readData s1 copied =>
      rcases hpc with ⟨a, hs1, hcall, hle, hcopied⟩
      refine ⟨a, hs1, hcall, Nat.le_trans hle ha.completed, ?_⟩
      intro hopened i word hword
      rcases hcopied (Nat.le_trans ha.opened hopened) i word hword with
        ⟨value, hget, heq⟩
      exact ⟨value, ha.versions a value hget, heq⟩
  | reloadSeq s1 readAttempt =>
      rcases hpc with ⟨a, hs1, hcall, hle, hvalue⟩
      refine ⟨a, hs1, hcall, Nat.le_trans hle ha.completed, ?_⟩
      intro hopened
      exact ha.versions a _ (hvalue (Nat.le_trans ha.opened hopened))

theorem CallOk.advance (ha : Advances s s') {call : ReadCall}
    {opened opened' n n' : Nat} (hc : CallOk s.returns call opened n)
    (hopened : opened ≤ opened') (hn : n ≤ n') :
    CallOk s'.returns call opened' n' := by
  rcases ha.returns with ⟨more, hmore⟩
  have hreturned := hc.returned
  constructor
  · exact Nat.le_trans hc.opened hopened
  · rw [hmore, List.length_append]
    lia
  · intro k e hk hget
    rw [hmore, List.getElem?_append_left (by lia)] at hget
    exact hc.earlier k e hk hget
  · exact Nat.le_trans hc.completed hn

theorem CallOk.discard {returns : List (ReadRecord Id m Word)}
    {call : ReadCall} {opened completed : Nat}
    (hc : CallOk returns call opened completed) (pc : ReadPc m Word) :
    CallOk returns (discard call pc) opened completed := by
  cases pc with
  | idle => exact hc
  | loadSeq => exact hc
  | readData s1 copied => exact hc
  | reloadSeq s1 readAttempt =>
      exact ⟨hc.opened, hc.returned, hc.earlier, hc.completed⟩

theorem ReaderOk.advance (ha : Advances s s') {r : Reader m Word}
    (hr : ReaderOk s r) : ReaderOk s' r :=
  ⟨hr.pc.advance ha, hr.call.advance ha ha.opened ha.completed⟩

theorem RecordOk.advance (ha : Advances s s') {e : ReadRecord Id m Word}
    (he : RecordOk s e) : RecordOk s' e :=
  ⟨fun hfew => ha.versions _ _ (he.value hfew),
    he.call.advance ha (Nat.le_refl _) (Nat.le_refl _),
    Nat.le_trans he.completed ha.completed⟩

/-!
## Steps of one reader
-/

namespace ReaderOk

variable {r : Reader m Word} {pc : ReadPc m Word}

theorem gotSeq (hw : WriterOk s) (hr : ReaderOk s r)
    (h : r.pc.gotSeq s.lock.seq = some (pc, none)) :
    ReaderOk s ⟨pc, discard r.call r.pc⟩ := by
  refine ⟨?_, hr.call.discard r.pc⟩
  rcases ReadPc.gotSeq_inv h with ⟨_, _, rfl, _⟩ | ⟨hpc, heven, rfl, _⟩ |
    ⟨_, _, _, hout⟩ | ⟨_, _, _, _, rfl, _⟩
  · exact trivial
  · -- an even `s1` is the word of the completed version
    have hclosed := opened_of_even hw heven
    have hopened := hr.call.opened
    rw [System.opened, hclosed, Nat.add_zero] at hopened
    rw [hpc]
    refine ⟨s.completed, hw.closed hclosed, hopened, Nat.le_refl _, ?_⟩
    intro _ w word hword
    cases hword
  · cases hout
  · exact trivial

/-- The load of `s2` that ends the call is its linearization point. -/
theorem value (hw : WriterOk s) (hr : ReaderOk s r) {v : Payload m Word}
    (h : r.pc.gotSeq s.lock.seq = some (pc, some v)) :
    pc = ReadPc.idle ∧
      (s.opened < r.call.opened + 2 ^ 63 ->
        s.versions[s.completed]? = some v) := by
  rcases ReadPc.gotSeq_inv h with ⟨_, _, _, hout⟩ | ⟨_, _, _, hout⟩ |
    ⟨readAttempt, hpc, rfl, hout⟩ | ⟨_, _, _, _, _, hout⟩
  · cases hout
  · cases hout
  · cases hout
    refine ⟨rfl, ?_⟩
    intro hfew
    have hok := hr.pc
    rw [hpc] at hok
    rcases hok with ⟨a, hseq, hcall, hle, hvalue⟩
    rcases opened_le_of_unchanged hw hseq hle (by lia) with ⟨hopened, ha⟩
    rw [← ha]
    exact hvalue hopened
  · cases hout

theorem gotWord (hw : WriterOk s) (hr : ReaderOk s r) {i : Fin m}
    (h : r.pc.gotWord i (s.lock.data i) = some pc) :
    ReaderOk s ⟨pc, r.call⟩ := by
  refine ⟨?_, hr.call⟩
  rcases ReadPc.gotWord_inv h with ⟨s1, copied, hpc, _, rfl⟩
  have hok := hr.pc
  rw [hpc] at hok
  rcases hok with ⟨a, hs1, hcall, hle, hcopied⟩
  refine ⟨a, hs1, hcall, hle, ?_⟩
  intro hopened j word hword
  rcases eq_or_ne j i with rfl | hne
  · rw [Function.update_self] at hword
    have hsame : s.writePc.opened = 0 ∧ a = s.completed := by
      rw [System.opened] at hopened
      lia
    rw [hsame.right]
    exact ⟨_, hw.data hsame.left, (Option.some.inj hword).symm⟩
  · rw [Function.update_of_ne hne] at hword
    exact hcopied hopened j word hword

theorem fence (hw : WriterOk s) (hr : ReaderOk s r)
    (h : r.pc.fence = some pc) : ReaderOk s ⟨pc, r.call⟩ := by
  refine ⟨?_, hr.call⟩
  rcases ReadPc.fence_inv h with ⟨s1, copied, attempt, hpc, hcollect, rfl⟩
  have hok := hr.pc
  rw [hpc] at hok
  rcases hok with ⟨a, hs1, hcall, hle, hcopied⟩
  refine ⟨a, hs1, hcall, hle, ?_⟩
  intro hopened
  have hlength := hw.length
  have hbegun := Nat.le_trans (completed_le_opened s) (opened_le_begun s)
  have hget := List.getElem?_eq_getElem (show a < s.versions.length by lia)
  have hwhole : s.versions[a]? = some attempt := by
    rw [hget]
    congr 1
    funext i
    rcases hcopied hopened i _ (collect_eq_some_iff.mp hcollect i) with
      ⟨value, hvalue, hword⟩
    rw [hget] at hvalue
    rw [Option.some.inj hvalue, hword]
  exact hwhole

end ReaderOk

/-!
## All readers
-/

structure ReadersOk (s : System Id m Word) : Prop where
  readers : forall i, ReaderOk s (s.readers i)
  returns : forall e, e ∈ s.returns -> RecordOk s e

namespace ReadersOk

theorem new (Id : Type _) (initialValue : Payload m Word) :
    ReadersOk (System.new Id initialValue) where
  readers _ := ⟨trivial, Nat.le_refl 0, Nat.le_refl 0,
    fun _ _ hk => absurd hk (Nat.not_lt_zero _), Nat.le_refl 0⟩
  returns _ he := absurd he List.not_mem_nil

theorem advance (hs : ReadersOk s) (ha : Advances s s')
    (hreturns : s'.returns = s.returns) (hreaders : s'.readers = s.readers) :
    ReadersOk s' := by
  constructor
  · intro i
    rw [hreaders]
    exact (hs.readers i).advance ha
  · intro e he
    rw [hreturns] at he
    exact (hs.returns e he).advance ha

theorem advances_read {more : List (ReadRecord Id m Word)}
    (hpc : s'.writePc = s.writePc) (hversions : s'.versions = s.versions)
    (hcompleted : s'.completed = s.completed)
    (hreturns : s'.returns = s.returns ++ more) : Advances s s' := by
  refine ⟨Nat.le_of_eq hcompleted.symm, ?_, ?_, more, hreturns⟩
  · rw [System.opened, System.opened, hpc, hcompleted]
  · intro a v hget
    rw [hversions]
    exact hget

variable [DecidableEq Id]

theorem setReader (hs : ReadersOk s) {i : Id} {r : Reader m Word}
    (hr : ReaderOk s r) (ha : Advances s s')
    (hreaders : s'.readers = Function.update s.readers i r)
    (hreturns : forall e, e ∈ s'.returns -> RecordOk s e) :
    ReadersOk s' := by
  constructor
  · intro j
    rw [hreaders]
    rcases eq_or_ne j i with rfl | hne
    · rw [Function.update_self]
      exact hr.advance ha
    · rw [Function.update_of_ne hne]
      exact (hs.readers j).advance ha
  · intro e he
    exact (hreturns e he).advance ha

theorem read (hw : WriterOk s) (hs : ReadersOk s) {i : Id} {a : ReadAction m}
    (h : s.read i a = some s') : ReadersOk s' := by
  have hnone : s.returns = s.returns ++ [] := (List.append_nil _).symm
  have hi := hs.readers i
  cases a with
  | call =>
      rcases readCall_inv h with ⟨_, rfl⟩
      have hr : ReaderOk s ⟨ReadPc.loadSeq,
          { returned := s.returns.length
            begun := s.begun
            opened := s.opened
            completed := s.completed }⟩ := by
        refine ⟨trivial, Nat.le_refl _, Nat.le_refl _, ?_, Nat.le_refl _⟩
        intro k e _ hget
        exact (hs.returns e (List.mem_of_getElem? hget)).completed
      exact hs.setReader hr (advances_read rfl rfl rfl hnone) rfl hs.returns
  | loadSeq =>
      rcases readLoadSeq_inv h with ⟨pc, hgot, rfl⟩ | ⟨pc, v, hgot, rfl⟩
      · exact hs.setReader (hi.gotSeq hw hgot)
          (advances_read rfl rfl rfl hnone) rfl hs.returns
      · rcases hi.value hw hgot with ⟨rfl, hvalue⟩
        refine hs.setReader (i := i) (r := ⟨ReadPc.idle, (s.readers i).call⟩)
          ⟨trivial, hi.call⟩ (advances_read rfl rfl rfl rfl) rfl ?_
        intro e he
        rcases List.mem_append.mp he with hold | hnew
        · exact hs.returns e hold
        · rw [List.mem_singleton.mp hnew]
          exact ⟨hvalue, hi.call, Nat.le_refl _⟩
  | loadWord w =>
      rcases readLoadWord_inv h with ⟨pc, hgot, rfl⟩
      exact hs.setReader (hi.gotWord hw hgot)
        (advances_read rfl rfl rfl hnone) rfl hs.returns
  | fence =>
      rcases readFence_inv h with ⟨pc, hfence, rfl⟩
      exact hs.setReader (hi.fence hw hfence)
        (advances_read rfl rfl rfl hnone) rfl hs.returns

theorem step (hw : WriterOk s) (hs : ReadersOk s) {a : Action Id m Word}
    (h : s.step a = some s') : ReadersOk s' := by
  cases a with
  | read i a => exact hs.read hw h
  | _ =>
      rcases Advances.writer h (by intro i b hread; cases hread) with
        ⟨ha, hreturns, hreaders⟩
      exact hs.advance ha hreturns hreaders

theorem reachable {initialValue : Payload m Word}
    (hs : (machine Id initialValue).Reachable s) : ReadersOk s :=
  hs.invariant_of_reachable (ReadersOk.new Id initialValue)
    (fun _ _ _ hreach hr h => hr.step (WriterOk.reachable hreach) h)

end ReadersOk
end System
end Seqlock
end LowLatency
