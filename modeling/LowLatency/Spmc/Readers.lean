import LowLatency.Spmc.Ring

/-!
# The consumers at every step

For each consumer the invariant says what its partial copy, its pending jump
and its finished reads have to do with the published values.  It is kept by the
steps of the other parties because the producer only advances.
-/

namespace LowLatency
namespace Spmc

open Foundation

namespace System

variable {W : Nat} {cap : Capacity W} {m : Nat} {Word : Type _}
variable {s s' : System cap m Word}

/-!
## Progress of the producer
-/

structure Advances (s s' : System cap m Word) : Prop where
  completed : s.completed ≤ s'.completed
  opened : s.opened ≤ s'.opened
  stamped : s.stamped ≤ s'.stamped
  published : forall (p : Nat) (value : Payload m Word),
    s.published[p]? = some value -> s'.published[p]? = some value

theorem Advances.setReader (s : System cap m Word) (c : Nat)
    (r : Reader W m Word) : Advances s (s.setReader c r) :=
  ⟨Nat.le_refl _, Nat.le_refl _, Nat.le_refl _, fun _ _ h => h⟩

theorem Advances.step {a : Action m Word} (h : s.step a = some s') :
    Advances s s' := by
  cases a with
  | publishCall value =>
      rcases publishCall_inv h with ⟨hpc, rfl⟩
      refine ⟨Nat.le_refl _, ?_, ?_, ?_⟩
      · rw [System.opened, hpc]
        exact Nat.le_refl _
      · rw [System.stamped, hpc]
        exact Nat.le_refl _
      · intro p v hget
        exact getElem?_append_of_eq_some hget _
  | publishStoreOdd =>
      rcases publishStoreOdd_inv h with ⟨wPos, value, hpc, rfl⟩
      refine ⟨Nat.le_refl _, ?_, ?_, fun _ _ hget => hget⟩
      · rw [System.opened, hpc]
        exact Nat.le_succ _
      · rw [System.stamped, hpc]
        exact Nat.le_refl _
  | publishWriteWord i =>
      rcases publishWriteWord_inv h with ⟨wPos, value, written, hpc, _, rfl⟩
      refine ⟨Nat.le_refl _, ?_, ?_, fun _ _ hget => hget⟩
      · rw [System.opened, hpc]
        exact Nat.le_refl _
      · rw [System.stamped, hpc]
        exact Nat.le_refl _
  | publishStoreEven =>
      rcases publishStoreEven_inv h with ⟨wPos, value, written, hpc, _, rfl⟩
      refine ⟨Nat.le_refl _, ?_, ?_, fun _ _ hget => hget⟩
      · rw [System.opened, hpc]
        exact Nat.le_refl _
      · rw [System.stamped, hpc]
        exact Nat.le_succ _
  | publishStoreCursor =>
      rcases publishStoreCursor_inv h with ⟨wPos, hpc, rfl⟩
      refine ⟨Nat.le_succ _, ?_, ?_, fun _ _ hget => hget⟩
      · rw [System.opened, hpc]
        exact Nat.le_refl _
      · rw [System.stamped, hpc]
        exact Nat.le_refl _
  | read c a =>
      rcases read_inv h with ⟨_, _, _, _, rfl⟩
      exact Advances.setReader s _ _
  | clone parent child =>
      rcases clone_inv h with ⟨_, _, _, _, _, rfl⟩
      exact Advances.setReader s _ _

/-!
## One consumer
-/

def Overwritten (cap : Capacity W) (stamped r : Nat) : Prop :=
  exists p, Nat.ModEq cap.size p r ∧ r + cap.size ≤ p ∧ p < stamped

structure RecordOk (cap : Capacity W) (published : List (Payload m Word))
    (e : ReadRecord W m Word) : Prop where
  progress : e.progress.completed ≤ e.progress.stamped ∧
    e.progress.stamped ≤ e.progress.begun
  value : forall v, e.result = ReadResult.value v ->
    e.progress.begun ≤ e.position + 2 ^ (W - 1) ->
      published[e.position]? = some v
  empty : e.result = ReadResult.empty ->
    e.progress.completed < e.position + 2 ^ (W - 1) ->
      e.progress.completed = e.position
  lapped : forall skipped, e.result = ReadResult.lapped skipped ->
    Overwritten cap e.progress.stamped e.position

structure ReaderOk (s : System cap m Word) (r : Reader W m Word) : Prop where
  cursors : r.Cursors s.completed
  /-- Until the next lap the copied words belong to the wanted value. -/
  copied : forall seq1 copied, r.thread.pc = ReadPc.readData seq1 copied ->
    s.opened ≤ r.position + cap.size -> forall i word,
      copied i = some word ->
        exists value, s.published[r.position]? = some value ∧ word = value i
  reload : r.thread.pc = ReadPc.reloadWriteCursor ->
    Overwritten cap s.stamped r.position
  log : forall e, e ∈ r.log -> RecordOk cap s.published e

theorem RecordOk.advance {e : ReadRecord W m Word} (ha : Advances s s')
    (he : RecordOk cap s.published e) : RecordOk cap s'.published e :=
  { he with
    value := fun v hvalue hbegun =>
      ha.published _ _ (he.value v hvalue hbegun) }

theorem Overwritten.mono {stamped stamped' r : Nat}
    (h : Overwritten cap stamped r) (hle : stamped ≤ stamped') :
    Overwritten cap stamped' r := by
  rcases h with ⟨p, hmod, hlap, hlt⟩
  exact ⟨p, hmod, hlap, Nat.lt_of_lt_of_le hlt hle⟩

namespace ReaderOk

variable {r r' : Reader W m Word}

theorem advance (ha : Advances s s') (hr : ReaderOk s r) : ReaderOk s' r where
  cursors := hr.cursors.mono ha.completed
  copied := by
    intro seq1 copied hpc hopened i word hword
    rcases hr.copied seq1 copied hpc (Nat.le_trans ha.opened hopened) i word
      hword with ⟨value, hget, heq⟩
    exact ⟨value, ha.published _ _ hget, heq⟩
  reload hpc := (hr.reload hpc).mono ha.stamped
  log e he := (hr.log e he).advance ha

theorem new (s : System cap m Word) : ReaderOk s (Reader.new W m Word) where
  cursors := Reader.Cursors.new _
  copied _ _ h := by cases h
  reload h := by cases h
  log e he := absurd he List.not_mem_nil

theorem clone (hr : ReaderOk s r) (h : r.clone = some r') : ReaderOk s r' := by
  have hcursors := hr.cursors.clone h
  rcases Reader.clone_inv h with ⟨hpc, rfl⟩
  refine ⟨hcursors, hr.copied, hr.reload, ?_⟩
  intro e he
  exact absurd he List.not_mem_nil

theorem call (hr : ReaderOk s r) (h : r.beginCall s.progress = some r') :
    ReaderOk s r' := by
  have hcursors := hr.cursors.beginCall h
  rcases Reader.beginCall_inv h with ⟨hpc, rfl⟩
  refine ⟨hcursors, ?_, ?_, hr.log⟩
  · intro seq1 copied hdata
    dsimp only at hdata
    split at hdata <;> cases hdata
  · intro hreload
    dsimp only at hreload
    split at hreload <;> cases hreload

theorem log_append (hr : ReaderOk s r) {e : ReadRecord W m Word}
    (he : RecordOk cap s.published e) :
    forall e', e' ∈ r.log ++ [e] -> RecordOk cap s.published e' := by
  intro e' hmem
  rcases List.mem_append.mp hmem with hold | hnew
  · exact hr.log e' hold
  · rw [List.mem_singleton.mp hnew]
    exact he

theorem of_pc (hpc : r.thread.pc = ReadPc.idle ∨ r.thread.pc = ReadPc.loadSeq)
    (hcursors : r.Cursors s.completed)
    (hlog : forall e, e ∈ r.log -> RecordOk cap s.published e) :
    ReaderOk s r := by
  constructor
  · exact hcursors
  · intro _ _ hdata
    rcases hpc with hpc | hpc
    · rw [hpc] at hdata
      cases hdata
    · rw [hpc] at hdata
      cases hdata
  · intro hreload
    rcases hpc with hpc | hpc
    · rw [hpc] at hreload
      cases hreload
    · rw [hpc] at hreload
      cases hreload
  · exact hlog

section Ring

variable [Zero Word]

theorem loadWriteCursor (hring : Ring s) (hr : ReaderOk s r)
    (h : r.gotWriteCursor s.progress s.completed
      (BitVec.ofNat W s.completed) = some r') : ReaderOk s r' := by
  have hcursors := hr.cursors.gotWriteCursor (Nat.le_refl _) h
  rcases Reader.gotWriteCursor_inv h with
    ⟨_, hempty, rfl⟩ | ⟨_, _, rfl⟩ | ⟨hpc, rfl⟩
  · apply of_pc (Or.inl rfl) hcursors
    apply hr.log_append
    refine ⟨hring.progress_ordered, ?_, ?_, ?_⟩
    · intro _ hvalue
      cases hvalue
    · intro _ hlag
      have hposition : r.position ≤ s.completed :=
        Nat.le_trans hr.cursors.position_le hr.cursors.cached_le
      have hhalf : 2 ^ (W - 1) ≤ 2 ^ W :=
        Nat.pow_le_pow_right Nat.two_pos (Nat.sub_le W 1)
      rw [hr.cursors.state] at hempty
      exact (Words.eq_of_ofNat_eq hposition
        (Nat.lt_of_lt_of_le hlag (Nat.add_le_add_left hhalf _)) hempty).symm
    · intro _ hlapped
      cases hlapped
  · exact of_pc (Or.inr rfl) hcursors hr.log
  · apply of_pc (Or.inl rfl) hcursors
    apply hr.log_append
    refine ⟨hring.progress_ordered, ?_, ?_, ?_⟩
    · intro _ hvalue
      cases hvalue
    · intro hempty
      cases hempty
    · intro _ _
      exact hr.reload hpc

theorem overwritten_of_unexpected (hring : Ring s) (hr : ReaderOk s r)
    (hpast : r.thread.pc.pastCheck = true)
    (heven : (s.queue.slots (r.thread.state.slot cap)).seq &&& 1#W ≠ 1#W)
    (hne : (s.queue.slots (r.thread.state.slot cap)).seq ≠
      r.thread.state.expectedSeq) :
    Overwritten cap s.stamped r.position := by
  have hlt := Nat.lt_of_lt_of_le (hr.cursors.past hpast) hr.cursors.cached_le
  rw [hr.cursors.slot] at heven hne
  rw [hr.cursors.expectedSeq] at hne
  rcases hring.slot_cases hlt with
    ⟨_, value, _, hslot⟩ | ⟨e, hmod, hlap, _, ⟨he, _⟩ | hodd⟩
  · rw [hslot] at hne
    exact absurd rfl hne
  · exact ⟨e, hmod, hlap, he⟩
  · rw [hodd] at heven
    exact absurd (Words.odd_test_odd cap.width_pos e) heven

/--
An unchanged `seq` means that no later lap has begun, as long as fewer than
`2 ^ (W - 1)` positions separate the producer from the reader.
-/
theorem opened_le_of_unchanged (hring : Ring s) (hr : ReaderOk s r)
    {copied : Fin m -> Option Word}
    (hpc : r.thread.pc = ReadPc.readData
      (s.queue.slots (r.thread.state.slot cap)).seq copied)
    (hbegun : s.published.length ≤ r.position + 2 ^ (W - 1)) :
    s.opened ≤ r.position + cap.size := by
  have hpast := hr.cursors.past (by rw [hpc]; rfl)
  have hlt := Nat.lt_of_lt_of_le hpast hr.cursors.cached_le
  have hseq := hr.cursors.readData _ _ hpc
  rw [hr.cursors.slot] at hseq
  rcases hring.slot_cases hlt with
    ⟨hopened, _⟩ | ⟨e, _, hlap, he, ⟨_, heven⟩ | hodd⟩
  · exact hopened
  · have hpos := cap.size_pos
    rw [hseq] at heven
    have heq := Words.eq_of_ofNat_two_mul_eq cap.width_pos
      (show r.position + 1 ≤ e + 1 by lia) (by lia) heven
    lia
  · rw [hseq] at hodd
    exact absurd hodd (Words.ofNat_even_ne_odd cap.width_pos (r.position + 1) e)

theorem loadSeq (hring : Ring s) (hr : ReaderOk s r)
    (h : r.gotSeq s.progress (s.queue.slots (r.thread.state.slot cap)).seq =
      some r') : ReaderOk s r' := by
  have hcursors := hr.cursors.gotSeq h
  rcases Reader.gotSeq_inv h with ⟨stats, hcases⟩
  rcases hcases with ⟨_, _, rfl⟩ | ⟨hpc, heven, hne, rfl⟩ | ⟨hpc, _, rfl⟩ |
    ⟨copied, attemptedRead, hpc, hcollect, rfl⟩ | ⟨seq1, copied, hpc, _, rfl⟩
  · exact ⟨hcursors, hr.copied, hr.reload, hr.log⟩
  · have hover := hr.overwritten_of_unexpected hring (by rw [hpc]; rfl)
      heven hne
    refine ⟨hcursors, ?_, fun _ => hover, hr.log⟩
    intro _ _ hdata
    cases hdata
  · refine ⟨hcursors, ?_, ?_, hr.log⟩
    · intro seq1 copied hdata _ i word hword
      cases hdata
      cases hword
    · intro hreload
      cases hreload
  · apply of_pc (Or.inl rfl) hcursors
    apply hr.log_append
    refine ⟨hring.progress_ordered, ?_, ?_, ?_⟩
    · intro v hvalue hbegun
      cases hvalue
      have hopened := hr.opened_le_of_unchanged hring hpc hbegun
      have hlt := Nat.lt_of_lt_of_le
        (hr.cursors.past (by rw [hpc]; rfl)) hr.cursors.cached_le
      have hopenedLe := hring.opened_le
      have hstamped := Nat.le_trans (completed_le_stamped s)
        (stamped_le_opened s)
      have hlength : r.position < s.published.length := by lia
      rcases (show exists value, s.published[r.position]? = some value from
        ⟨_, List.getElem?_eq_getElem hlength⟩) with ⟨value, hget⟩
      have hwhole : value = attemptedRead := by
        funext i
        rcases hr.copied _ _ hpc hopened i _ (collect_eq_some_iff.mp hcollect i) with
          ⟨value', hget', hword⟩
        rw [hget] at hget'
        rw [Option.some.inj hget', hword]
      rw [← hwhole]
      exact hget
    · intro hempty
      cases hempty
    · intro _ hlapped
      cases hlapped
  · exact of_pc (Or.inr rfl) hcursors hr.log

theorem loadWord (hring : Ring s) (hr : ReaderOk s r) {i : Fin m}
    (h : r.gotWord i ((s.queue.slots (r.thread.state.slot cap)).data i) =
      some r') : ReaderOk s r' := by
  have hcursors := hr.cursors.gotWord h
  rcases Reader.gotWord_inv h with ⟨seq1, copied, hpc, _, rfl⟩
  refine ⟨hcursors, ?_, ?_, hr.log⟩
  · intro seq1' copied' hdata hopened j word hword
    cases hdata
    rcases eq_or_ne j i with rfl | hne
    · rw [Function.update_self, hr.cursors.slot] at hword
      have hpos := cap.size_pos
      have hlt := Nat.lt_of_lt_of_le
        (hr.cursors.past (by rw [hpc]; rfl)) hr.cursors.cached_le
      have hstamped := Nat.lt_of_lt_of_le hlt (completed_le_stamped s)
      have hle := stamped_le_opened s
      rcases hring.settled.slot_cases
        (Nat.le_trans hle hring.opened_le) hle hstamped with
        ⟨_, value, hget, hslot⟩ | ⟨hlapped, _⟩
      · rw [hslot] at hword
        exact ⟨value, hget, (Option.some.inj hword).symm⟩
      · exact absurd hopened (Nat.not_le_of_lt hlapped)
    · rw [Function.update_of_ne hne] at hword
      exact hr.copied seq1 copied hpc hopened j word hword
  · intro hreload
    cases hreload

theorem readStep (hring : Ring s) (hr : ReaderOk s r) {a : ReadAction m}
    (h : s.readStep r a = some r') : ReaderOk s r' := by
  cases a with
  | call => exact hr.call h
  | loadWriteCursor =>
      rw [System.readStep, hring.cursor] at h
      exact hr.loadWriteCursor hring h
  | loadSeq => exact hr.loadSeq hring h
  | loadWord i => exact hr.loadWord hring h

end Ring
end ReaderOk

/-!
## All consumers
-/

def Readers (s : System cap m Word) : Prop :=
  forall c r, s.readers c = some r -> ReaderOk s r

namespace Readers

theorem new (cap : Capacity W) (m : Nat) (Word : Type _) [Zero Word] :
    Readers (System.new cap m Word) := by
  intro c r hr
  rw [readers_new hr]
  exact ReaderOk.new _

theorem step [Zero Word] (hring : Ring s) (hs : Readers s) {a : Action m Word}
    (h : s.step a = some s') : Readers s' := by
  have ha := Advances.step h
  intro c r' hr'
  rcases step_readers h hr' with hold | ⟨r, b, hr, hstep⟩ |
    ⟨parent, r, hr, _, hclone⟩
  · exact (hs c r' hold).advance ha
  · exact ((hs c r hr).readStep hring hstep).advance ha
  · exact ((hs parent r hr).clone hclone).advance ha

theorem reachable [Zero Word] (hs : (machine cap m Word).Reachable s) :
    Readers s :=
  hs.invariant_of_reachable (P := Readers) (Readers.new cap m Word)
    (fun _ _ _ hreach hr h => Readers.step (Ring.reachable hreach) hr h)

end Readers
end System
end Spmc
end LowLatency
