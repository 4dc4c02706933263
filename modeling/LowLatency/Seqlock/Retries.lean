import LowLatency.Seqlock.Readers

/-!
# Retries of a read

A copy is thrown away only when a write has stored its odd `seq` since `s1` was
loaded, and each odd store spoils one copy at most.  Without such a store a
read needs one iteration, so reads come to an end once the writes do.
-/

namespace LowLatency
namespace Seqlock

open Foundation

namespace System

variable {Id : Type _} {m : Nat} {Word : Type _}
variable {s s' : System Id m Word}

/-!
## Discarded copies

The copies discarded so far are paid for by the odd stores before the load of
`s1`.  An odd store since then pays for the copy in progress.
-/

def Paid (opened completed : Nat) (call : ReadCall) : ReadPc m Word -> Prop
  | ReadPc.readData s1 _ =>
      exists a, s1 = BitVec.ofNat 64 (2 * a) ∧ a ≤ completed ∧
        call.opened + call.discarded ≤ a
  | ReadPc.reloadSeq s1 _ =>
      exists a, s1 = BitVec.ofNat 64 (2 * a) ∧ a ≤ completed ∧
        call.opened + call.discarded ≤ a
  | _ => call.opened + call.discarded ≤ opened

theorem Paid.advance {opened opened' completed completed' : Nat}
    {call : ReadCall} {pc : ReadPc m Word}
    (hpc : Paid opened completed call pc) (hopened : opened ≤ opened')
    (hcompleted : completed ≤ completed') :
    Paid opened' completed' call pc := by
  cases pc with
  | idle => exact Nat.le_trans hpc hopened
  | loadSeq => exact Nat.le_trans hpc hopened
  | readData s1 copied =>
      rcases hpc with ⟨a, hs1, hle, hpaid⟩
      exact ⟨a, hs1, Nat.le_trans hle hcompleted, hpaid⟩
  | reloadSeq s1 readAttempt =>
      rcases hpc with ⟨a, hs1, hle, hpaid⟩
      exact ⟨a, hs1, Nat.le_trans hle hcompleted, hpaid⟩

theorem lt_opened_of_changed (hw : WriterOk s) {a : Nat}
    (ha : a ≤ s.completed) (hne : BitVec.ofNat 64 (2 * a) ≠ s.lock.seq) :
    a < s.opened := by
  apply Nat.lt_of_not_le
  intro hle
  have hsame : s.writePc.opened = 0 ∧ a = s.completed := by
    rw [System.opened] at hle
    lia
  apply hne
  rw [hw.closed hsame.left, hsame.right]

namespace Paid

variable {r : Reader m Word} {pc : ReadPc m Word}

theorem gotSeq (hw : WriterOk s)
    (hr : Paid s.opened s.completed r.call r.pc)
    (h : r.pc.gotSeq s.lock.seq = some (pc, none)) :
    Paid s.opened s.completed (discard r.call r.pc) pc := by
  rcases ReadPc.gotSeq_inv h with ⟨hpc, _, rfl, _⟩ | ⟨hpc, heven, rfl, _⟩ |
    ⟨_, _, _, hout⟩ | ⟨s1, readAttempt, hpc, hne, rfl, _⟩
  · rw [hpc] at hr ⊢
    exact hr
  · have hclosed := opened_of_even hw heven
    have hopened : s.opened = s.completed := by
      rw [System.opened, hclosed, Nat.add_zero]
    rw [hpc] at hr ⊢
    refine ⟨s.completed, hw.closed hclosed, Nat.le_refl _, ?_⟩
    rw [← hopened]
    exact hr
  · cases hout
  · rw [hpc] at hr ⊢
    rcases hr with ⟨a, rfl, hle, hpaid⟩
    have hlt := lt_opened_of_changed hw hle hne
    change r.call.opened + (r.call.discarded + 1) ≤ s.opened
    lia

theorem value (hr : Paid s.opened s.completed r.call r.pc)
    {seq : BitVec 64} {v : Payload m Word}
    (h : r.pc.gotSeq seq = some (pc, some v)) :
    pc = ReadPc.idle ∧ r.call.opened + r.call.discarded ≤ s.opened := by
  rcases ReadPc.gotSeq_inv h with ⟨_, _, _, hout⟩ | ⟨_, _, _, hout⟩ |
    ⟨readAttempt, hpc, rfl, _⟩ | ⟨_, _, _, _, _, hout⟩
  · cases hout
  · cases hout
  · rw [hpc] at hr
    rcases hr with ⟨a, _, hle, hpaid⟩
    have hopened := completed_le_opened s
    exact ⟨rfl, by lia⟩
  · cases hout

theorem gotWord (hr : Paid s.opened s.completed r.call r.pc) {i : Fin m}
    {word : Word} (h : r.pc.gotWord i word = some pc) :
    Paid s.opened s.completed r.call pc := by
  rcases ReadPc.gotWord_inv h with ⟨s1, copied, hpc, _, rfl⟩
  rw [hpc] at hr
  exact hr

theorem fence (hr : Paid s.opened s.completed r.call r.pc)
    (h : r.pc.fence = some pc) : Paid s.opened s.completed r.call pc := by
  rcases ReadPc.fence_inv h with ⟨s1, copied, attempt, hpc, _, rfl⟩
  rw [hpc] at hr
  exact hr

end Paid

structure RetriesPaid (s : System Id m Word) : Prop where
  readers : forall i,
    Paid s.opened s.completed (s.readers i).call (s.readers i).pc
  returns : forall e, e ∈ s.returns ->
    e.call.opened + e.call.discarded ≤ e.opened

namespace RetriesPaid

theorem new (Id : Type _) (initialValue : Payload m Word) :
    RetriesPaid (System.new Id initialValue) where
  readers _ := Nat.le_refl 0
  returns _ he := absurd he List.not_mem_nil

theorem running (hs : RetriesPaid s) (i : Id) :
    (s.readers i).call.opened + (s.readers i).call.discarded ≤ s.opened := by
  have hi := hs.readers i
  have hopened := completed_le_opened s
  cases hpc : (s.readers i).pc with
  | idle =>
      rw [hpc] at hi
      exact hi
  | loadSeq =>
      rw [hpc] at hi
      exact hi
  | readData s1 copied =>
      rw [hpc] at hi
      rcases hi with ⟨a, _, hle, hpaid⟩
      lia
  | reloadSeq s1 readAttempt =>
      rw [hpc] at hi
      rcases hi with ⟨a, _, hle, hpaid⟩
      lia

variable [DecidableEq Id]

theorem setReader (hs : RetriesPaid s) {i : Id} {r : Reader m Word}
    (hr : Paid s.opened s.completed r.call r.pc)
    (hpc : s'.writePc = s.writePc) (hcompleted : s'.completed = s.completed)
    (hreaders : s'.readers = Function.update s.readers i r)
    (hreturns : forall e, e ∈ s'.returns ->
      e.call.opened + e.call.discarded ≤ e.opened) : RetriesPaid s' := by
  have hopened : s'.opened = s.opened := by
    rw [System.opened, System.opened, hpc, hcompleted]
  constructor
  · intro j
    rw [hopened, hcompleted, hreaders]
    rcases eq_or_ne j i with rfl | hne
    · rw [Function.update_self]
      exact hr
    · rw [Function.update_of_ne hne]
      exact hs.readers j
  · exact hreturns

theorem read (hw : WriterOk s) (hs : RetriesPaid s) {i : Id}
    {a : ReadAction m} (h : s.read i a = some s') : RetriesPaid s' := by
  have hi := hs.readers i
  cases a with
  | call =>
      rcases readCall_inv h with ⟨_, rfl⟩
      have hr : Paid s.opened s.completed
          { returned := s.returns.length
            begun := s.begun
            opened := s.opened
            completed := s.completed } (ReadPc.loadSeq : ReadPc m Word) :=
        Nat.le_refl s.opened
      exact hs.setReader hr rfl rfl rfl hs.returns
  | loadSeq =>
      rcases readLoadSeq_inv h with ⟨pc, hgot, rfl⟩ | ⟨pc, v, hgot, rfl⟩
      · exact hs.setReader (hi.gotSeq hw hgot) rfl rfl rfl hs.returns
      · rcases hi.value hgot with ⟨rfl, hpaid⟩
        refine hs.setReader (i := i) (r := ⟨ReadPc.idle, (s.readers i).call⟩)
          hpaid rfl rfl rfl ?_
        intro e he
        rcases List.mem_append.mp he with hold | hnew
        · exact hs.returns e hold
        · rw [List.mem_singleton.mp hnew]
          exact hpaid
  | loadWord w =>
      rcases readLoadWord_inv h with ⟨pc, hgot, rfl⟩
      exact hs.setReader (r := ⟨pc, (s.readers i).call⟩) (hi.gotWord hgot)
        rfl rfl rfl hs.returns
  | fence =>
      rcases readFence_inv h with ⟨pc, hfence, rfl⟩
      exact hs.setReader (r := ⟨pc, (s.readers i).call⟩) (hi.fence hfence)
        rfl rfl rfl hs.returns

theorem step (hw : WriterOk s) (hs : RetriesPaid s) {a : Action Id m Word}
    (h : s.step a = some s') : RetriesPaid s' := by
  cases a with
  | read i a => exact hs.read hw h
  | _ =>
      rcases Advances.writer h (by intro i b hread; cases hread) with
        ⟨ha, hreturns, hreaders⟩
      constructor
      · intro i
        rw [hreaders]
        exact (hs.readers i).advance ha.opened ha.completed
      · rw [hreturns]
        exact hs.returns

theorem reachable {initialValue : Payload m Word}
    (hs : (machine Id initialValue).Reachable s) : RetriesPaid s :=
  hs.invariant_of_reachable (RetriesPaid.new Id initialValue)
    (fun _ _ _ hreach hr h => hr.step (WriterOk.reachable hreach) h)

end RetriesPaid

/-!
## Odd sequence numbers
-/

theorem opened_of_odd (hw : WriterOk s) (hodd : s.lock.seq &&& 1#64 = 1#64) :
    s.writePc.opened = 1 := by
  rcases Nat.eq_zero_or_pos s.writePc.opened with hzero | hpos
  · rw [hw.closed hzero] at hodd
    exact absurd hodd (Words.odd_test_even (by decide) s.completed)
  · exact Nat.le_antisymm s.writePc.opened_le_one hpos

variable [DecidableEq Id]

theorem opened_of_skip (hw : WriterOk s) {i : Id}
    (hpc : (s.readers i).pc = ReadPc.loadSeq)
    (h : s.read i ReadAction.loadSeq = some s')
    (hskip : (s'.readers i).pc = ReadPc.loadSeq) : s.writePc.opened = 1 := by
  apply opened_of_odd hw
  rcases readLoadSeq_inv h with ⟨pc, hgot, rfl⟩ | ⟨pc, v, hgot, rfl⟩
  · rw [setReader_self] at hskip
    rw [hpc] at hgot
    rcases ReadPc.gotSeq_inv hgot with ⟨_, hodd, _⟩ | ⟨_, _, hdata, _⟩ |
      ⟨_, hreload, _⟩ | ⟨_, _, hreload, _⟩
    · exact hodd
    · rw [hdata] at hskip
      cases hskip
    · cases hreload
    · cases hreload
  · rw [hpc] at hgot
    rcases ReadPc.gotSeq_inv hgot with ⟨_, _, _, hout⟩ | ⟨_, _, _, hout⟩ |
      ⟨_, hreload, _⟩ | ⟨_, _, _, _, _, hout⟩
    · cases hout
    · cases hout
    · cases hreload
    · cases hout

end System
end Seqlock
end LowLatency
