import LowLatency.Spmc.Readers

/-!
# Iterations and copies of a call

The loop of `try_read` goes round again after an odd `seq` and after a copy
that was overtaken.  The number of a slot that was left does not come back
before almost `2 ^ (W - 1)` more publishes, so a second copy is not made.
-/

namespace LowLatency
namespace Spmc

open Foundation

/-!
## Counting
-/

namespace Reader

variable {W m : Nat} {Word : Type _} {r r' : Reader W m Word} {g : Progress}

def Counted (r : Reader W m Word) : Prop :=
  match r.thread.pc with
  | ReadPc.idle =>
      r.stats.iterations ≤ r.stats.oddIterations + r.stats.copies + 1
  | ReadPc.loadWriteCursor =>
      r.stats.iterations = r.stats.oddIterations + r.stats.copies
  | ReadPc.loadSeq =>
      r.stats.iterations = r.stats.oddIterations + r.stats.copies
  | ReadPc.readData _ _ =>
      r.stats.iterations = r.stats.oddIterations + r.stats.copies + 1
  | ReadPc.reloadWriteCursor =>
      r.stats.iterations = r.stats.oddIterations + r.stats.copies + 1

namespace Counted

theorem le (hr : Counted r) :
    r.stats.iterations ≤ r.stats.oddIterations + r.stats.copies + 1 := by
  unfold Counted at hr
  split at hr
  · exact hr
  · exact Nat.le_succ_of_le (Nat.le_of_eq hr)
  · exact Nat.le_succ_of_le (Nat.le_of_eq hr)
  · exact Nat.le_of_eq hr
  · exact Nat.le_of_eq hr

theorem new (W m : Nat) (Word : Type _) : Counted (Reader.new W m Word) :=
  Nat.zero_le _

theorem clone (h : r.clone = some r') : Counted r' := by
  rcases clone_inv h with ⟨hpc, rfl⟩
  unfold Counted
  dsimp only
  rw [hpc]
  exact Nat.zero_le _

theorem beginCall (h : r.beginCall g = some r') : Counted r' := by
  rcases beginCall_inv h with ⟨_, rfl⟩
  unfold Counted
  dsimp only
  cases r.thread.state.looksEmpty with
  | false => rfl
  | true => rfl

theorem gotWriteCursor (hr : Counted r) {n : Nat} {writeCursor : BitVec W}
    (h : r.gotWriteCursor g n writeCursor = some r') : Counted r' := by
  have hle := hr.le
  rcases gotWriteCursor_inv h with ⟨_, _, rfl⟩ | ⟨hpc, _, rfl⟩ | ⟨_, rfl⟩
  · exact hle
  · unfold Counted at hr
    rw [hpc] at hr
    exact hr
  · exact hle

theorem gotSeq (hr : Counted r) {seq : BitVec W}
    (h : r.gotSeq g seq = some r') : Counted r' := by
  unfold Counted at hr
  rcases gotSeq_counts h with ⟨hpc, _, rfl⟩ | ⟨hpc, _, _, rfl⟩ |
    ⟨hpc, _, _, rfl⟩ | ⟨copied, v, hpc, _, rfl⟩ | ⟨seq1, copied, hpc, _, rfl⟩
  · rw [hpc] at hr
    unfold Counted
    dsimp only
    rw [hpc]
    dsimp only at hr ⊢
    lia
  · rw [hpc] at hr
    exact congrArg Nat.succ hr
  · rw [hpc] at hr
    exact congrArg Nat.succ hr
  · rw [hpc] at hr
    dsimp only [Counted] at hr ⊢
    lia
  · rw [hpc] at hr
    dsimp only [Counted] at hr ⊢
    lia

theorem gotWord (hr : Counted r) {i : Fin m} {word : Word}
    (h : r.gotWord i word = some r') : Counted r' := by
  rcases gotWord_inv h with ⟨seq1, copied, hpc, _, rfl⟩
  unfold Counted at hr
  rw [hpc] at hr
  exact hr

end Counted
end Reader

namespace System

variable {W : Nat} {cap : Capacity W} {m : Nat} {Word : Type _}
variable {s s' : System cap m Word} {r r' : Reader W m Word}

/-!
## Copies

The first copy of a call is made from a slot whose number agrees with the
wanted one.  When the copy is rejected, that number has been overwritten.
-/

/-- Fewer than `2 ^ (W - 1) - CAPACITY` publishes have begun since the call. -/
def FewBegun (cap : Capacity W) (begun : Nat) (k : CallStats) : Prop :=
  begun + cap.size < k.begunAtCall + 2 ^ (W - 1)

structure Attempted (cap : Capacity W) (position stamped begunAtCall p : Nat) :
    Prop where
  slot : Nat.ModEq cap.size p position
  seq : Nat.ModEq (2 ^ (W - 1)) p position
  stamped : p < stamped
  begun : begunAtCall ≤ p + cap.size + 1

structure CopiesOnce (s : System cap m Word) (r : Reader W m Word) : Prop where
  first : forall seq1 copied, r.thread.pc = ReadPc.readData seq1 copied ->
    r.stats.copies = 0 ∧
      exists p, Attempted cap r.position s.stamped r.stats.begunAtCall p
  rejected : r.stats.copies ≠ 0 -> r.stats.copies = 1 ∧
    exists p, Attempted cap r.position s.stamped r.stats.begunAtCall p ∧
      p + cap.size < s.opened

theorem CopiesOnce.copies_le (h : CopiesOnce s r) : r.stats.copies ≤ 1 := by
  by_cases hzero : r.stats.copies = 0
  · lia
  · exact Nat.le_of_eq (h.rejected hzero).left

theorem Attempted.mono {position stamped stamped' begunAtCall p : Nat}
    (h : Attempted cap position stamped begunAtCall p)
    (hle : stamped ≤ stamped') :
    Attempted cap position stamped' begunAtCall p :=
  { h with stamped := Nat.lt_of_lt_of_le h.stamped hle }

structure CallOk (s : System cap m Word) (r : Reader W m Word) : Prop where
  counted : r.Counted
  begun : r.thread.pc ≠ ReadPc.idle ->
    r.stats.begunAtCall ≤ s.published.length
  running : r.thread.pc ≠ ReadPc.idle ->
    FewBegun cap s.published.length r.stats -> CopiesOnce s r
  returned : r.thread.pc = ReadPc.idle -> forall e, r.log.getLast? = some e ->
    FewBegun cap e.progress.begun r.stats -> r.stats.copies ≤ 1

theorem Advances.begun_le (ha : Advances s s') :
    s.published.length ≤ s'.published.length := by
  apply Nat.le_of_not_lt
  intro hlt
  have hget := List.getElem?_eq_getElem hlt
  have hkept := ha.published _ _ hget
  rw [List.getElem?_eq_none (Nat.le_refl _)] at hkept
  cases hkept

/-!
## The number in a slot
-/

section Slots

variable [Zero Word] {q : Nat}

theorem exists_stamp (hring : Ring s) (hlt : q < s.opened)
    (heven : (s.queue.slots (cap.slotOf q)).seq &&& 1#W ≠ 1#W) :
    exists e, Nat.ModEq cap.size e q ∧ q ≤ e ∧ e < s.stamped ∧
      s.opened ≤ e + cap.size ∧
      (s.queue.slots (cap.slotOf q)).seq = BitVec.ofNat W (2 * e + 2) := by
  rcases exists_last_opened cap hlt with ⟨e, hmod, hle, hopened, hlast⟩
  rw [← cap.slotOf_eq_iff.mpr hmod] at heven ⊢
  rcases Nat.lt_or_ge e s.stamped with hstamped | hge
  · have hlength := hring.opened_le
    have hget := List.getElem?_eq_getElem
      (show e < s.published.length by lia)
    rw [hring.settled.holds e _ hstamped hlast hget]
    exact ⟨e, hmod, hle, hstamped, hlast, rfl⟩
  · rw [hring.opened_not_stamped hopened hge] at heven
    exact absurd (Words.odd_test_odd cap.width_pos e) heven

/-- An odd number belongs to a publish between its odd and its even store. -/
theorem writing_of_odd (hring : Ring s) (hlt : q < s.completed)
    (hodd : (s.queue.slots (cap.slotOf q)).seq &&& 1#W = 1#W) :
    (exists wPos value written,
      s.publishPc = PublishPc.writeData wPos value written) ∧
      Nat.ModEq cap.size s.completed q ∧ q + cap.size ≤ s.completed := by
  have hcompleted := Nat.le_trans (completed_le_stamped s) (stamped_le_opened s)
  rcases exists_last_opened cap (show q < s.opened by lia) with
    ⟨e, hmod, hle, hopened, hlast⟩
  rw [← cap.slotOf_eq_iff.mpr hmod] at hodd
  rcases Nat.lt_or_ge e s.stamped with hstamped | hge
  · have hlength := hring.opened_le
    have hget := List.getElem?_eq_getElem
      (show e < s.published.length by lia)
    rw [hring.settled.holds e _ hstamped hlast hget] at hodd
    exact absurd hodd (Words.odd_test_even cap.width_pos (e + 1))
  · rcases writing_of_open hopened hge with ⟨heq, hwriting⟩
    rw [heq] at hmod
    exact ⟨hwriting, hmod, lap_of_modEq hmod hlt⟩

end Slots

namespace CallOk

theorem advance (ha : Advances s s') (hr : CallOk s r) : CallOk s' r := by
  have hbegun := ha.begun_le
  constructor
  · exact hr.counted
  · intro hpc
    exact Nat.le_trans (hr.begun hpc) hbegun
  · intro hpc hfew
    have hfew' : FewBegun cap s.published.length r.stats := by
      unfold FewBegun at hfew ⊢
      lia
    have hcopies := hr.running hpc hfew'
    constructor
    · intro seq1 copied hdata
      rcases hcopies.first seq1 copied hdata with ⟨hzero, p, hp⟩
      exact ⟨hzero, p, hp.mono ha.stamped⟩
    · intro hne
      rcases hcopies.rejected hne with ⟨hone, p, hp, hopened⟩
      exact ⟨hone, p, hp.mono ha.stamped,
        Nat.lt_of_lt_of_le hopened ha.opened⟩
  · exact hr.returned

theorem new (s : System cap m Word) : CallOk s (Reader.new W m Word) where
  counted := Reader.Counted.new W m Word
  begun h := absurd rfl h
  running h := absurd rfl h
  returned _ _ h := by cases h

theorem clone (h : r.clone = some r') : CallOk s r' := by
  have hcounted := Reader.Counted.clone h
  rcases Reader.clone_inv h with ⟨hpc, rfl⟩
  exact ⟨hcounted, fun hne => absurd hpc hne, fun hne => absurd hpc hne,
    fun _ _ hlast => by cases hlast⟩

theorem call (h : r.beginCall s.progress = some r') : CallOk s r' := by
  have hcounted := Reader.Counted.beginCall h
  rcases Reader.beginCall_inv h with ⟨_, rfl⟩
  refine ⟨hcounted, fun _ => Nat.le_refl _, ?_, ?_⟩
  · intro _ _
    constructor
    · intro seq1 copied hdata
      dsimp only at hdata
      split at hdata <;> cases hdata
    · intro hne
      exact absurd rfl hne
  · intro hidle
    dsimp only at hidle
    split at hidle <;> cases hidle

theorem finish {e : ReadRecord W m Word} {stats : CallStats} {log}
    (hcounted : r'.Counted) (hpc : r'.thread.pc = ReadPc.idle)
    (hlog : r'.log = log ++ [e]) (hstats : r'.stats = stats)
    (hcopies : FewBegun cap e.progress.begun stats -> stats.copies ≤ 1) :
    CallOk s r' := by
  refine ⟨hcounted, fun hne => absurd hpc hne, fun hne => absurd hpc hne, ?_⟩
  intro _ e' hlast hfew
  rw [hlog, List.getLast?_concat] at hlast
  cases hlast
  rw [hstats] at hfew ⊢
  exact hcopies hfew

theorem goOn (hr : CallOk s r) (hcounted : r'.Counted)
    (hpc : r.thread.pc ≠ ReadPc.idle) (hpc' : r'.thread.pc ≠ ReadPc.idle)
    (hdata : forall seq1 copied,
      r'.thread.pc ≠ ReadPc.readData seq1 copied)
    (hposition : r'.position = r.position)
    (hcopies : r'.stats.copies = r.stats.copies)
    (hbegun : r'.stats.begunAtCall = r.stats.begunAtCall) : CallOk s r' := by
  refine ⟨hcounted, ?_, ?_, fun hidle => absurd hidle hpc'⟩
  · intro _
    rw [hbegun]
    exact hr.begun hpc
  · intro _ hfew
    unfold FewBegun at hfew
    rw [hbegun] at hfew
    have honce := hr.running hpc hfew
    constructor
    · intro seq1 copied h
      exact absurd h (hdata seq1 copied)
    · rw [hcopies, hposition, hbegun]
      exact honce.rejected

theorem gotWriteCursor (hr : CallOk s r) {n : Nat} {writeCursor : BitVec W}
    (h : r.gotWriteCursor s.progress n writeCursor = some r') :
    CallOk s r' := by
  have hcounted := hr.counted.gotWriteCursor h
  have hcopies : r.thread.pc ≠ ReadPc.idle ->
      FewBegun cap s.progress.begun r.stats -> r.stats.copies ≤ 1 :=
    fun hpc hfew => (hr.running hpc hfew).copies_le
  rcases Reader.gotWriteCursor_inv h with ⟨hpc, _, rfl⟩ | ⟨hpc, _, rfl⟩ |
    ⟨hpc, rfl⟩
  · exact finish hcounted rfl rfl rfl
      (hcopies (by rw [hpc]; exact nofun))
  · refine hr.goOn hcounted ?_ ?_ ?_ rfl rfl rfl
    · rw [hpc]
      exact nofun
    · exact nofun
    · intro _ _ hdata
      cases hdata
  · exact finish hcounted rfl rfl rfl
      (hcopies (by rw [hpc]; exact nofun))

theorem loadWord (hr : CallOk s r) {i : Fin m} {word : Word}
    (h : r.gotWord i word = some r') : CallOk s r' := by
  have hcounted := hr.counted.gotWord h
  rcases Reader.gotWord_inv h with ⟨seq1, copied, hpc, _, rfl⟩
  have hrunning : r.thread.pc ≠ ReadPc.idle := by
    rw [hpc]
    exact nofun
  refine ⟨hcounted, fun _ => hr.begun hrunning, ?_, ?_⟩
  · intro _ hfew
    have honce := hr.running hrunning hfew
    exact ⟨fun _ _ _ => honce.first _ _ hpc, honce.rejected⟩
  · intro hidle
    cases hidle

section Ring

variable [Zero Word]

theorem startCopy (hring : Ring s) (hok : ReaderOk s r) (hr : CallOk s r)
    (hpc : r.thread.pc = ReadPc.loadSeq)
    (heven : (s.queue.slots (r.thread.state.slot cap)).seq &&& 1#W ≠ 1#W)
    (hexpected : (s.queue.slots (r.thread.state.slot cap)).seq =
      r.thread.state.expectedSeq)
    (hfew : FewBegun cap s.published.length r.stats) :
    r.stats.copies = 0 ∧
      exists p, Attempted cap r.position s.stamped r.stats.begunAtCall p := by
  have hrunning : r.thread.pc ≠ ReadPc.idle := by
    rw [hpc]
    exact nofun
  have hlt := Nat.lt_of_lt_of_le (hok.cursors.past (by rw [hpc]; rfl))
    hok.cursors.cached_le
  have hcompleted := Nat.le_trans (completed_le_stamped s) (stamped_le_opened s)
  have hopened := hring.opened_le
  have hstampedLe := stamped_le_opened s
  have hlength : s.published.length ≤ s.opened + 1 := by
    have hone : s.publishPc.begun ≤ 1 := by
      cases s.publishPc <;> simp [PublishPc.begun]
    have hsum := hring.length
    lia
  have hbegun := hr.begun hrunning
  rw [hok.cursors.slot] at heven hexpected
  rw [hok.cursors.expectedSeq] at hexpected
  rcases exists_stamp hring (show r.position < s.opened by lia) heven with
    ⟨e, hmod, hle, hstamped, hlast, hseq⟩
  have hround : Nat.ModEq (2 ^ (W - 1)) e r.position := by
    rw [hseq, show 2 * e + 2 = 2 * (e + 1) by lia,
      show 2 * r.position + 2 = 2 * (r.position + 1) by lia,
      Words.ofNat_two_mul_eq_iff cap.width_pos] at hexpected
    exact Nat.ModEq.add_right_cancel' 1 hexpected
  have hnew : Attempted cap r.position s.stamped r.stats.begunAtCall e :=
    ⟨hmod, hround, hstamped, by lia⟩
  refine ⟨?_, e, hnew⟩
  -- a number that was left comes back after `2 ^ (W - 1)` positions only
  by_contra hne
  rcases (hr.running hrunning hfew).rejected hne with ⟨_, p, hp, hleft⟩
  have hlater : p < e := by lia
  have hgap : p + 2 ^ (W - 1) ≤ e := by
    apply Nat.le_of_not_lt
    intro hclose
    have heq := Words.eq_of_modEq_of_lt_add (Nat.le_of_lt hlater) hclose
      (hp.seq.trans hround.symm)
    lia
  have hfirst := hp.begun
  unfold FewBegun at hfew
  lia

theorem opened_of_rejected (hring : Ring s) (hok : ReaderOk s r)
    {seq1 : BitVec W} {copied : Fin m -> Option Word} {p : Nat}
    (hpc : r.thread.pc = ReadPc.readData seq1 copied)
    (hne : seq1 ≠ (s.queue.slots (r.thread.state.slot cap)).seq)
    (hp : Attempted cap r.position s.stamped r.stats.begunAtCall p) :
    p + cap.size < s.opened := by
  apply Nat.lt_of_not_le
  intro hle
  have hstamped := hp.stamped
  have hlength := Nat.le_trans (stamped_le_opened s) hring.opened_le
  have hget := List.getElem?_eq_getElem (show p < s.published.length by lia)
  apply hne
  rw [hok.cursors.readData _ _ hpc, hok.cursors.slot,
    ← cap.slotOf_eq_iff.mpr hp.slot,
    hring.settled.holds p _ hstamped hle hget,
    show 2 * r.position + 2 = 2 * (r.position + 1) by lia,
    show 2 * p + 2 = 2 * (p + 1) by lia]
  exact (Words.ofNat_two_mul_eq_iff cap.width_pos).mpr
    (hp.seq.symm.add_right 1)

theorem loadSeq (hring : Ring s) (hok : ReaderOk s r) (hr : CallOk s r)
    (h : r.gotSeq s.progress (s.queue.slots (r.thread.state.slot cap)).seq =
      some r') : CallOk s r' := by
  have hcounted := hr.counted.gotSeq h
  rcases Reader.gotSeq_counts h with ⟨hpc, _, rfl⟩ | ⟨hpc, _, _, rfl⟩ |
    ⟨hpc, heven, hexpected, rfl⟩ | ⟨copied, v, hpc, _, rfl⟩ |
    ⟨seq1, copied, hpc, hne, rfl⟩
  · refine hr.goOn hcounted ?_ ?_ ?_ rfl rfl rfl
    · rw [hpc]
      exact nofun
    · dsimp only
      rw [hpc]
      exact nofun
    · intro _ _ hdata
      rw [hpc] at hdata
      cases hdata
  · refine hr.goOn hcounted ?_ ?_ ?_ rfl rfl rfl
    · rw [hpc]
      exact nofun
    · exact nofun
    · intro _ _ hdata
      cases hdata
  · have hrunning : r.thread.pc ≠ ReadPc.idle := by
      rw [hpc]
      exact nofun
    refine ⟨hcounted, fun _ => hr.begun hrunning, ?_, ?_⟩
    · intro _ hfew
      have hfirst := hr.startCopy hring hok hpc heven hexpected hfew
      exact ⟨fun _ _ _ => hfirst, fun hne => absurd hfirst.left hne⟩
    · intro hidle
      cases hidle
  · have hrunning : r.thread.pc ≠ ReadPc.idle := by
      rw [hpc]
      exact nofun
    apply finish hcounted rfl rfl rfl
    intro hfew
    have hzero := ((hr.running hrunning hfew).first _ _ hpc).left
    dsimp only
    lia
  · have hrunning : r.thread.pc ≠ ReadPc.idle := by
      rw [hpc]
      exact nofun
    refine ⟨hcounted, fun _ => hr.begun hrunning, ?_, ?_⟩
    · intro _ hfew
      rcases (hr.running hrunning hfew).first _ _ hpc with ⟨hzero, p, hp⟩
      constructor
      · intro _ _ hdata
        cases hdata
      · intro _
        have hopened := opened_of_rejected hring hok hpc hne hp
        exact ⟨by dsimp only; lia, p, ⟨hp.slot, hp.seq, hp.stamped, hp.begun⟩,
          hopened⟩
    · intro hidle
      cases hidle

theorem readStep (hring : Ring s) (hok : ReaderOk s r) (hr : CallOk s r)
    {a : ReadAction m} (h : s.readStep r a = some r') : CallOk s r' := by
  cases a with
  | call => exact call h
  | loadWriteCursor => exact hr.gotWriteCursor h
  | loadSeq => exact hr.loadSeq hring hok h
  | loadWord i => exact hr.loadWord h

end Ring
end CallOk

def Calls (s : System cap m Word) : Prop :=
  forall c r, s.readers c = some r -> CallOk s r

namespace Calls

theorem step [Zero Word] (hring : Ring s) (hreaders : Readers s)
    (hs : Calls s) {a : Action m Word} (h : s.step a = some s') :
    Calls s' := by
  have ha := Advances.step h
  intro c r' hr'
  rcases step_readers h hr' with hold | ⟨r, b, hr, hstep⟩ |
    ⟨_, r, _, _, hclone⟩
  · exact (hs c r' hold).advance ha
  · exact ((hs c r hr).readStep hring (hreaders c r hr) hstep).advance ha
  · exact (CallOk.clone hclone).advance ha

theorem reachable [Zero Word] (hs : (machine cap m Word).Reachable s) :
    Calls s := by
  apply hs.invariant_of_reachable (P := Calls)
  · intro c r hr
    rw [readers_new hr]
    exact CallOk.new _
  · intro s a s' hreach hcalls h
    exact hcalls.step (Ring.reachable hreach) (Readers.reachable hreach) h

end Calls
end System
end Spmc
end LowLatency
