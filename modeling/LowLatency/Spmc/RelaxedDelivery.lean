import LowLatency.Spmc.RelaxedReads

/-!
# Delivery under weak memory

What the interleaving of single steps promises to a consumer is kept by every
execution of the orderings in the code: whole values at their positions, no
loss without a lap, and the broadcast to each consumer that keeps up.
-/

namespace LowLatency
namespace Spmc

open Foundation

namespace RelaxedSystem

variable {W : Nat} {cap : Capacity W} {m : Nat} {Word : Type}
variable {s s' : RelaxedSystem cap m Word}

/-!
## What a consumer is bound to see
-/

theorem readStep_current_le {r r' : RelaxedReader cap m Word}
    {a : RelaxedReadAction m} (h : s.readStep r a = some r') :
    r.view.current ≤ r'.view.current := by
  cases a with
  | call =>
      rcases call_inv h with ⟨_, _, rfl⟩
      exact le_refl _
  | loadWriteCursor n =>
      rcases loadWriteCursor_inv h with ⟨_, _, _, _, rfl⟩
      exact r.view.current_le_loadAcquire _ _ _
  | loadSeq k =>
      rcases loadSeq_inv h with ⟨msg, reader, _, _, rfl⟩
      have hbefore : r.view.current ≤ (beforeSeq r).current := by
        unfold beforeSeq
        split
        · exact r.view.current_le_fenceAcquire
        · exact le_refl _
      unfold afterSeq
      split
      · exact le_trans hbefore ((beforeSeq r).current_le_loadAcquire _ _ _)
      · exact le_trans hbefore ((beforeSeq r).current_le_loadRelaxed _ _ _)
  | loadWord w u =>
      rcases loadWord_inv h with ⟨_, _, _, _, rfl⟩
      exact r.view.current_le_loadRelaxed _ _ _

/-- The consumer is there and is bound to see the stores of the view. -/
def Sees (s : RelaxedSystem cap m Word) (c : Nat) (view : View (Place cap m)) :
    Prop :=
  forall r, s.readers c = some r -> view ≤ r.view.current

theorem Sees.step {c : Nat} {view : View (Place cap m)} (hs : s.Sees c view)
    (hthere : (s.readers c).isSome) {a : RelaxedAction m Word}
    (h : s.step a = some s') : s'.Sees c view := by
  intro r hr
  have horigin := step_origin h hr
  cases horigin with
  | old hold => exact hs r hold
  | stepped hold hstep => exact le_trans (hs _ hold) (readStep_current_le hstep)
  | cloned _ hnone _ =>
      rw [hnone] at hthere
      cases hthere
  | heard hold _ _ =>
      exact le_trans (hs _ hold) (ThreadView.current_le_hear _ _)

theorem setReader_isSome {c d : Nat} {r : RelaxedReader cap m Word}
    (hthere : (s.readers c).isSome) :
    ((s.setReader d r).readers c).isSome := by
  rcases eq_or_ne c d with rfl | hne
  · simp [setReader]
  · simpa [setReader, Function.update_of_ne hne] using hthere

theorem step_isSome {c : Nat} (hthere : (s.readers c).isSome)
    {a : RelaxedAction m Word} (h : s.step a = some s') :
    (s'.readers c).isSome := by
  cases a with
  | publishCall value n =>
      rcases publishCall_inv h with ⟨_, _, _, rfl⟩
      exact hthere
  | publishStoreOdd =>
      rcases publishStoreOdd_inv h with ⟨_, _, _, rfl⟩
      exact hthere
  | publishWriteWord w =>
      rcases publishWriteWord_inv h with ⟨_, _, _, _, _, rfl⟩
      exact hthere
  | publishStoreEven =>
      rcases publishStoreEven_inv h with ⟨_, _, _, _, _, rfl⟩
      exact hthere
  | publishStoreCursor =>
      rcases publishStoreCursor_inv h with ⟨_, _, rfl⟩
      exact hthere
  | read d b =>
      rcases read_inv h with ⟨_, _, _, _, rfl⟩
      exact setReader_isSome hthere
  | clone parent child =>
      rcases clone_inv h with ⟨_, _, _, _, _, rfl⟩
      exact setReader_isSome hthere
  | hear d source =>
      rcases hear_inv h with ⟨_, _, _, _, _, rfl⟩
      exact setReader_isSome hthere

/-- The number of positions that a party between two calls has behind it. -/
def behind (s : RelaxedSystem cap m Word) : Option Nat -> Nat
  | none => s.completed
  | some d =>
      match s.readers d with
      | none => 0
      | some r => r.reader.position

/--
Only the load in `is_still_empty` ends a read with `Empty`, and it returns the
word of the read cursor.
-/
theorem empty_inv {r r' : RelaxedReader cap m Word} {a : RelaxedReadAction m}
    (h : s.readStep r a = some r') {e : ReadRecord W m Word}
    (hlog : r'.reader.log[r.reader.log.length]? = some e)
    (hempty : e.result = ReadResult.empty) :
    exists (n : Nat) (msg : Message (Place cap m) (BitVec W)),
      s.memory.load? r.view.current Place.writeCursor n = some msg ∧
      r.reader.thread.state.readCursor = msg.value ∧
      e.position = r.reader.position := by
  have hsame : r'.reader.log ≠ r.reader.log := by
    intro hold
    rw [hold, List.getElem?_length] at hlog
    cases hlog
  cases a with
  | call =>
      rcases call_inv h with ⟨reader, hcall, rfl⟩
      rcases Reader.beginCall_inv hcall with ⟨_, rfl⟩
      exact absurd rfl hsame
  | loadWriteCursor n =>
      rcases loadWriteCursor_inv h with ⟨msg, reader, hload, hgot, rfl⟩
      rcases Reader.gotWriteCursor_inv hgot with
        ⟨_, hword, rfl⟩ | ⟨_, _, rfl⟩ | ⟨_, rfl⟩
      · rw [List.getElem?_concat_length] at hlog
        rw [← Option.some.inj hlog]
        exact ⟨n, msg, hload, hword, rfl⟩
      · exact absurd rfl hsame
      · rw [List.getElem?_concat_length] at hlog
        rw [← Option.some.inj hlog] at hempty
        cases hempty
  | loadSeq k =>
      rcases loadSeq_inv h with ⟨msg, reader, _, hgot, rfl⟩
      have hreader : (afterSeq r reader (r.reader.thread.state.slot cap) k
          msg).reader = reader := by
        unfold afterSeq
        split <;> rfl
      rw [hreader] at hlog hsame
      rcases Reader.gotSeq_inv hgot with ⟨stats, hcases⟩
      rcases hcases with ⟨_, _, rfl⟩ | ⟨_, _, _, rfl⟩ | ⟨_, _, rfl⟩ |
        ⟨_, _, _, _, rfl⟩ | ⟨_, _, _, _, rfl⟩
      · exact absurd rfl hsame
      · exact absurd rfl hsame
      · exact absurd rfl hsame
      · rw [List.getElem?_concat_length] at hlog
        rw [← Option.some.inj hlog] at hempty
        cases hempty
      · exact absurd rfl hsame
  | loadWord w u =>
      rcases loadWord_inv h with ⟨msg, reader, _, hgot, rfl⟩
      rcases Reader.gotWord_inv hgot with ⟨_, _, _, _, rfl⟩
      exact absurd rfl hsame

theorem sees_of_hear {c : Nat} {source : Option Nat}
    (h : s.hear c source = some s') :
    exists view, s.told source = some view ∧ s'.Sees c view ∧
      (s'.readers c).isSome := by
  rcases hear_inv h with ⟨r, view, hr, htold, _, rfl⟩
  refine ⟨view, htold, ?_, ?_⟩
  · intro r' hr'
    rcases readers_setReader hr' with ⟨_, rfl⟩ | hold
    · exact le_sup_right
    · simp only [setReader, Function.update_self] at hr'
      rw [← Option.some.inj hr']
      exact le_sup_right
  · simp [setReader]

/-- Every read ended before the publish of position `r + CAPACITY` began. -/
def KeepsUp (r : RelaxedReader cap m Word) : Prop :=
  System.KeepsUp cap r.reader

namespace KeepsUp

variable {r : RelaxedReader cap m Word}

theorem lagBelow (hk : KeepsUp r) (hok : ReaderOk s r) :
    r.reader.LagBelow (2 ^ W) := by
  intro e he
  rcases (hok.log e he).progress with ⟨hcompleted, hstamped⟩
  have hbegun := hk e he
  have hsize := cap.size_lt
  lia

theorem not_lapped (hk : KeepsUp r) (hok : ReaderOk s r)
    {e : ReadRecord W m Word} (he : e ∈ r.reader.log) (skipped : BitVec W) :
    e.result ≠ ReadResult.lapped skipped := by
  intro hlapped
  rcases (hok.log e he).lapped skipped hlapped with ⟨p, _, hlap, hlt⟩
  have hstamped := (hok.log e he).progress.right
  have hbegun := hk e he
  lia

theorem value_published (hk : KeepsUp r) (hok : ReaderOk s r)
    {e : ReadRecord W m Word} (he : e ∈ r.reader.log) {v : Payload m Word}
    (hvalue : e.result = ReadResult.value v) :
    s.published[e.position]? = some v := by
  apply (hok.log e he).value v hvalue
  exact Nat.le_trans (hk e he)
    (Nat.add_le_add_left cap.size_le_half e.position)

end KeepsUp

variable [Zero Word]

/-- An empty ring is reported to a consumer that has read all it has seen. -/
theorem current_le_of_empty
    (hreach : (relaxedMachine cap m Word).Reachable s) {c : Nat}
    {r r' : RelaxedReader cap m Word} (hr : s.readers c = some r)
    {a : RelaxedReadAction m} (h : s.readStep r a = some r')
    {e : ReadRecord W m Word}
    (hlog : r'.reader.log[r.reader.log.length]? = some e)
    (hempty : e.result = ReadResult.empty)
    (hlag : s.completed < e.position + 2 ^ W) :
    r.view.current Place.writeCursor ≤ e.position := by
  have hcursors := (Readers.reachable hreach c r hr).cursors
  rcases empty_inv h hlog hempty with ⟨n, msg, hload, hword, hposition⟩
  rcases (Stores.reachable hreach).each.load hload with ⟨hseen, hn, hvalue, _⟩
  have hle := Nat.le_trans hcursors.position_le
    (Nat.le_trans hcursors.cached_le hseen)
  rw [hvalue, hcursors.state] at hword
  rw [hposition] at hlag ⊢
  have heq := Words.eq_of_ofNat_eq hle (Nat.lt_of_le_of_lt hn hlag) hword
  rw [heq]
  exact hseen

/-- Whoever hears from a party is bound to see what that party has behind it. -/
theorem behind_le_told (hreach : (relaxedMachine cap m Word).Reachable s)
    {source : Option Nat} {view : View (Place cap m)}
    (h : s.told source = some view) :
    s.behind source ≤ view Place.writeCursor := by
  rcases told_inv h with ⟨rfl, _, rfl⟩ | ⟨d, r, rfl, hr, _, rfl⟩
  · exact (Stores.reachable hreach).upToDate Place.writeCursor
  · have hcursors := (Readers.reachable hreach d r hr).cursors
    simp only [behind, hr]
    exact Nat.le_trans hcursors.position_le hcursors.cached_le

/-!
## Whole values at their positions
-/

/--
A returned value is the whole published value of the position at which the read
started, however its words, the two loads of `seq` and the stores of the
producer were reordered.
-/
theorem relaxed_value_is_published
    (hreach : (relaxedMachine cap m Word).Reachable s) {c : Nat}
    {r : RelaxedReader cap m Word} (hr : s.readers c = some r)
    {e : ReadRecord W m Word} (he : e ∈ r.reader.log) {v : Payload m Word}
    (hvalue : e.result = ReadResult.value v)
    (hbegun : e.progress.begun ≤ e.position + 2 ^ (W - 1)) :
    s.published[e.position]? = some v :=
  ((Readers.reachable hreach c r hr).log e he).value v hvalue hbegun

def publishSteps (value : Payload m Word) (n : Nat) :
    List (RelaxedAction m Word) :=
  [RelaxedAction.publishCall value n, RelaxedAction.publishStoreOdd] ++
    (List.finRange m).map RelaxedAction.publishWriteWord ++
    [RelaxedAction.publishStoreEven, RelaxedAction.publishStoreCursor]

/-- A torn copy is discarded, the lap reported, and the newer value read. -/
theorem relaxed_value_is_published_torn :
    exists s, (relaxedMachine (⟨1#3, 0, rfl⟩ : Capacity 3) 2 Nat).run
        (publishSteps (fun w : Fin 2 => 10 + w.val) 0 ++
          ([RelaxedReadAction.call, RelaxedReadAction.loadWriteCursor 0,
            RelaxedReadAction.call, RelaxedReadAction.loadWriteCursor 1,
            RelaxedReadAction.loadSeq 2, RelaxedReadAction.loadWord 0 1].map
              (RelaxedAction.read 0)) ++
          [RelaxedAction.publishCall (fun w : Fin 2 => 20 + w.val) 1,
            RelaxedAction.publishStoreOdd, RelaxedAction.publishWriteWord 1] ++
          ([RelaxedReadAction.loadWord 1 2, RelaxedReadAction.loadSeq 3].map
              (RelaxedAction.read 0)) ++
          [RelaxedAction.publishWriteWord 0, RelaxedAction.publishStoreEven,
            RelaxedAction.publishStoreCursor] ++
          ([RelaxedReadAction.loadSeq 4, RelaxedReadAction.loadWriteCursor 2,
            RelaxedReadAction.call, RelaxedReadAction.loadSeq 4,
            RelaxedReadAction.loadWord 0 2, RelaxedReadAction.loadWord 1 2,
            RelaxedReadAction.loadSeq 4].map (RelaxedAction.read 0))) =
          some s ∧
      exists r e v, s.readers 0 = some r ∧ e ∈ r.reader.log ∧
        e.result = ReadResult.value v ∧
        s.published[e.position]? = some v ∧ v 0 = 20 ∧ v 1 = 21 := by
  apply Machine.exists_run_of_map
    (fun s => (s.readers 0).bind (fun r => r.reader.log[2]?.bind (fun e =>
      e.result.value?.map (fun v =>
        (e.position, e.progress.begun, v 0, v 1)))))
    (some (1, 2, 20, 21)) (by decide +kernel)
  intro s hrun hshown
  rcases Option.bind_eq_some_iff.mp hshown with ⟨r, hr, hread⟩
  rcases Option.bind_eq_some_iff.mp hread with ⟨e, he, hvalue⟩
  rcases Option.map_eq_some_iff.mp hvalue with ⟨v, hv, hfields⟩
  simp only [Prod.mk.injEq] at hfields
  rcases hfields with ⟨hposition, hbegun, hfirst, hsecond⟩
  have hmem := List.mem_of_getElem? he
  have hresult := ReadResult.value?_eq_some.mp hv
  have hclose : e.progress.begun ≤ e.position + 2 ^ (3 - 1) := by
    rw [hposition, hbegun]
    decide
  exact ⟨r, e, v, hr, hmem, hresult,
    relaxed_value_is_published ⟨_, hrun⟩ hr hmem hresult hclose, hfirst,
    hsecond⟩

/-!
## No loss without a lap
-/

/--
A lap is reported only if a position of the same slot, at least one lap ahead,
has been stamped.  After a consumer has heard from the producer or from another
consumer, it never takes the ring for empty before the positions that the other
party had behind it.
-/
theorem relaxed_no_spurious_loss
    (hreach : (relaxedMachine cap m Word).Reachable s) {c : Nat} :
    (forall r e, s.readers c = some r -> e ∈ r.reader.log -> forall skipped,
      e.result = ReadResult.lapped skipped ->
        exists p, Nat.ModEq cap.size p e.position ∧
          e.position + cap.size ≤ p ∧ p < e.progress.stamped) ∧
    (forall source s₁ actions s₂ r a r' e, s.hear c source = some s₁ ->
      (relaxedMachine cap m Word).runFrom s₁ actions = some s₂ ->
      s₂.readers c = some r -> s₂.readStep r a = some r' ->
      r'.reader.log[r.reader.log.length]? = some e ->
      e.result = ReadResult.empty -> s₂.completed < e.position + 2 ^ W ->
        s.behind source ≤ e.position) := by
  constructor
  · intro r e hr he
    exact ((Readers.reachable hreach c r hr).log e he).lapped
  · intro source s₁ actions s₂ r a r' e hhear hrun hr hstep hlog hempty hlag
    rcases sees_of_hear hhear with ⟨view, htold, hsees, hthere⟩
    have hreach₁ : (relaxedMachine cap m Word).Reachable s₁ :=
      hreach.step (a := RelaxedAction.hear c source) hhear
    have hkept : s₂.Sees c view ∧ (s₂.readers c).isSome := by
      apply Machine.runFrom_invariant (M := relaxedMachine cap m Word)
        (P := fun s => s.Sees c view ∧ (s.readers c).isSome) ?_
        ⟨hsees, hthere⟩ hrun
      intro s a s' hs h
      exact ⟨hs.left.step hs.right h, step_isSome hs.right h⟩
    calc s.behind source
        ≤ view Place.writeCursor := behind_le_told hreach htold
      _ ≤ r.view.current Place.writeCursor :=
          hkept.left r hr Place.writeCursor
      _ ≤ e.position :=
          current_le_of_empty (hreach₁.runFrom hrun) hr hstep hlog hempty hlag

/-- The reads after a consumer has heard of one publish. -/
theorem relaxed_no_spurious_loss_heard :
    exists s, (relaxedMachine (⟨1#3, 0, rfl⟩ : Capacity 3) 1 Nat).run
        (publishSteps (fun _ => 10) 0) = some s ∧
      exists s₁, s.hear 0 none = some s₁ ∧
      exists s₂, (relaxedMachine (⟨1#3, 0, rfl⟩ : Capacity 3) 1 Nat).runFrom
        s₁ ([RelaxedReadAction.call, RelaxedReadAction.loadWriteCursor 1,
          RelaxedReadAction.loadSeq 2, RelaxedReadAction.loadWord 0 1,
          RelaxedReadAction.loadSeq 2, RelaxedReadAction.call].map
            (RelaxedAction.read 0)) = some s₂ ∧
      exists r r' e, s₂.readers 0 = some r ∧
        s₂.readStep r (RelaxedReadAction.loadWriteCursor 1) = some r' ∧
        r'.reader.log[1]? = some e ∧ e.result = ReadResult.empty ∧
        s.behind none = 1 ∧ s.behind none ≤ e.position := by
  apply Machine.exists_run_of_map
    (fun s => (s.hear 0 none).bind (fun s₁ =>
      ((relaxedMachine (⟨1#3, 0, rfl⟩ : Capacity 3) 1 Nat).runFrom
        s₁ ([RelaxedReadAction.call, RelaxedReadAction.loadWriteCursor 1,
          RelaxedReadAction.loadSeq 2, RelaxedReadAction.loadWord 0 1,
          RelaxedReadAction.loadSeq 2, RelaxedReadAction.call].map
            (RelaxedAction.read 0))).bind (fun s₂ =>
      (s₂.readers 0).bind (fun r =>
        (s₂.readStep r (RelaxedReadAction.loadWriteCursor 1)).bind (fun r' =>
        r'.reader.log[1]?.map (fun e => (s.behind none, s₂.completed,
          r.reader.log.length, e.position,
          e.result.value?.isNone && e.result.skipped?.isNone)))))))
    (some (1, 1, 1, 1, true)) (by decide +kernel)
  intro s hrun hshown
  rcases Option.bind_eq_some_iff.mp hshown with ⟨s₁, hhear, hshown⟩
  rcases Option.bind_eq_some_iff.mp hshown with ⟨s₂, hrun₂, hshown⟩
  rcases Option.bind_eq_some_iff.mp hshown with ⟨r, hr, hshown⟩
  rcases Option.bind_eq_some_iff.mp hshown with ⟨r', hr', hshown⟩
  rcases Option.map_eq_some_iff.mp hshown with ⟨e, he, hfields⟩
  simp only [Prod.mk.injEq] at hfields
  rcases hfields with ⟨hbehind, hcompleted, hlength, hposition, hnone⟩
  have hempty := ReadResult.eq_empty hnone
  have hlag : s₂.completed < e.position + 2 ^ 3 := by
    rw [hcompleted, hposition]
    decide
  have hlog : r'.reader.log[r.reader.log.length]? = some e :=
    (congrArg (fun k => r'.reader.log[k]?) hlength).trans he
  exact ⟨s₁, hhear, s₂, hrun₂, r, r', e, hr, hr', he, hempty, hbehind,
    (relaxed_no_spurious_loss ⟨_, hrun⟩).right none s₁ _ s₂ r _ r' e hhear
      hrun₂ hr hr' hlog hempty hlag⟩

/-!
## Broadcast
-/

/--
A consumer that never falls behind by more than `CAPACITY` reads every value
that is published after its start, once and in order.
-/
theorem relaxed_broadcast
    (hreach : (relaxedMachine cap m Word).Reachable s) {c : Nat}
    {r : RelaxedReader cap m Word} (hr : s.readers c = some r)
    (hk : KeepsUp r) :
    (forall e, e ∈ r.reader.log -> forall skipped,
      e.result ≠ ReadResult.lapped skipped) ∧
    r.reader.start ≤ r.reader.position ∧ r.reader.position ≤ s.completed ∧
    r.reader.log.filterMap (fun e => e.result.value?) =
      (s.published.drop r.reader.start).take
        (r.reader.position - r.reader.start) := by
  have hok := Readers.reachable hreach c r hr
  have hchain := hok.accounted (hk.lagBelow hok)
  refine ⟨fun e he => hk.not_lapped hok he, hchain.le, ?_, hchain.values ?_⟩
  · have hcursors := hok.cursors
    exact Nat.le_trans hcursors.position_le (Nat.le_trans hcursors.cached_le
      (hok.knows.current Place.writeCursor))
  · intro e he
    cases hresult : e.result with
    | value v => exact Or.inr ⟨v, rfl, hk.value_published hok he hresult⟩
    | empty => exact Or.inl rfl
    | lapped skipped => exact absurd hresult (hk.not_lapped hok he skipped)

/-- A stale answer, and the two values that are published in one slot. -/
theorem relaxed_broadcast_stale :
    exists s, (relaxedMachine (⟨1#3, 0, rfl⟩ : Capacity 3) 1 Nat).run
        (publishSteps (fun _ => 10) 0 ++
          ([RelaxedReadAction.call, RelaxedReadAction.loadWriteCursor 0,
            RelaxedReadAction.call, RelaxedReadAction.loadWriteCursor 1,
            RelaxedReadAction.loadSeq 2, RelaxedReadAction.loadWord 0 1,
            RelaxedReadAction.loadSeq 2].map (RelaxedAction.read 0)) ++
          publishSteps (fun _ => 20) 1 ++
          ([RelaxedReadAction.call, RelaxedReadAction.loadWriteCursor 2,
            RelaxedReadAction.loadSeq 4, RelaxedReadAction.loadWord 0 2,
            RelaxedReadAction.loadSeq 4].map (RelaxedAction.read 0))) =
          some s ∧
      exists r, s.readers 0 = some r ∧ r.reader.log.length = 3 ∧
        r.reader.log.filterMap (fun e => e.result.value?) =
          (s.published.drop 0).take 2 := by
  apply Machine.exists_run_of_map
    (fun s => (s.readers 0).map (fun r => (r.reader.log.length,
      r.reader.start, r.reader.position, r.reader.log.all (fun e =>
        decide (e.progress.begun ≤ e.position + 1)))))
    (some (3, 0, 2, true)) (by decide +kernel)
  intro s hrun hshown
  rcases Option.map_eq_some_iff.mp hshown with ⟨r, hr, hfields⟩
  simp only [Prod.mk.injEq] at hfields
  rcases hfields with ⟨hlength, hstart, hposition, hall⟩
  have hk : KeepsUp r := by
    intro e he
    exact of_decide_eq_true (List.all_eq_true.mp hall e he)
  have hvalues := (relaxed_broadcast ⟨_, hrun⟩ hr hk).right.right.right
  rw [hstart, hposition] at hvalues
  exact ⟨r, hr, hlength, hvalues⟩

end RelaxedSystem
end Spmc
end LowLatency
