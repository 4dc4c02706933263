import LowLatency.Spmc.Readers
import LowLatency.Spmc.Sequential

/-!
# The limit of lap detection

The sequence number of a position keeps one bit less of it than the cursor.  A
consumer that has fallen behind by `2 ^ (W - 1)` positions or less is told so.
One position further the overtaking position has the sequence number that the
consumer waits for.
-/

namespace LowLatency
namespace Spmc

open Foundation

namespace System

variable {W : Nat} {cap : Capacity W} {m : Nat} {Word : Type _}
variable {s : System cap m Word} {c : Nat} {r : Reader W m Word}

/-!
## The last position in a slot
-/

structure LastInSlot (cap : Capacity W) (position completed p : Nat) :
    Prop where
  slot : Nat.ModEq cap.size p position
  published : p < completed
  last : completed ≤ p + cap.size

/-- The empty check lets the call go on to the slot. -/
def ChecksSlot (s : System cap m Word) (r : Reader W m Word) : Prop :=
  r.thread.state.looksEmpty = true ->
    r.thread.state.readCursor ≠ s.queue.writeCursor

theorem exists_lastInSlot (cap : Capacity W) {position completed : Nat}
    (h : position < completed) :
    exists p, position ≤ p ∧ LastInSlot cap position completed p := by
  rcases exists_last_opened cap h with ⟨p, hmod, hle, hlt, hlast⟩
  exact ⟨p, hle, hmod, hlt, hlast⟩

theorem LastInSlot.lt_iff {position completed p : Nat}
    (hp : LastInSlot cap position completed p) (hle : position ≤ p) :
    position < p <-> position + cap.size < completed := by
  have hpublished := hp.published
  have hlast := hp.last
  constructor
  · intro hlt
    have hlap := lap_of_modEq hp.slot hlt
    lia
  · intro hlapped
    lia

theorem LastInSlot.unique {position completed p q : Nat}
    (hp : LastInSlot cap position completed p)
    (hq : LastInSlot cap position completed q) : p = q := by
  have hmod := hp.slot.trans hq.slot.symm
  have hpPublished := hp.published
  have hqPublished := hq.published
  have hpLast := hp.last
  have hqLast := hq.last
  exact hmod.eq_of_abs_lt (by rw [abs_lt]; constructor <;> lia)

theorem lastInSlot_half (cap : Capacity W) {position completed : Nat}
    (h : completed = position + (2 ^ (W - 1) + 1)) :
    LastInSlot cap position completed (position + 2 ^ (W - 1)) := by
  have hsize := cap.size_pos
  have hdvd : cap.size ∣ 2 ^ (W - 1) := by
    rw [Capacity.size, cap.isPowerOfTwo]
    exact Nat.pow_dvd_pow 2 (Nat.le_sub_one_of_lt cap.log_lt)
  refine ⟨?_, by lia, by lia⟩
  apply Nat.ModEq.symm
  rw [Nat.modEq_iff_dvd' (Nat.le_add_right _ _), Nat.add_sub_cancel_left]
  exact hdvd

inductive Outcome (s : System cap m Word) (r : Reader W m Word) (p : Nat) :
    ReadResult W m Word -> Prop where
  | empty (hempty : Not (ChecksSlot s r)) : Outcome s r p ReadResult.empty
  | value (v : Payload m Word) (hchecks : ChecksSlot s r)
      (hdvd : 2 ^ (W - 1) ∣ p - r.position)
      (hget : s.published[p]? = some v) : Outcome s r p (ReadResult.value v)
  | lapped (skipped : BitVec W) (hchecks : ChecksSlot s r)
      (hdvd : Not (2 ^ (W - 1) ∣ p - r.position)) :
      Outcome s r p (ReadResult.lapped skipped)

namespace Outcome

variable {p : Nat} {result : ReadResult W m Word}

theorem empty_iff (h : Outcome s r p result) :
    result = ReadResult.empty <-> Not (ChecksSlot s r) := by
  cases h with
  | empty hempty => simp [hempty]
  | value v hchecks hdvd hget => simp [hchecks]
  | lapped skipped hchecks hdvd => simp [hchecks]

theorem value_iff (h : Outcome s r p result) :
    (exists v, result = ReadResult.value v) <->
      ChecksSlot s r ∧ 2 ^ (W - 1) ∣ p - r.position := by
  cases h with
  | empty hempty => simp [hempty]
  | value v hchecks hdvd hget => simp [hchecks, hdvd]
  | lapped skipped hchecks hdvd => simp [hchecks, hdvd]

theorem lapped_iff (h : Outcome s r p result) :
    (exists skipped, result = ReadResult.lapped skipped) <->
      ChecksSlot s r ∧ Not (2 ^ (W - 1) ∣ p - r.position) := by
  cases h with
  | empty hempty => simp [hempty]
  | value v hchecks hdvd hget => simp [hchecks, hdvd]
  | lapped skipped hchecks hdvd => simp [hchecks, hdvd]

theorem published {v : Payload m Word}
    (h : Outcome s r p (ReadResult.value v)) : s.published[p]? = some v := by
  cases h with
  | value _ hchecks hdvd hget => exact hget

end Outcome

/-!
## A consumer behind an idle producer
-/

variable [Zero Word]

structure Behind (s : System cap m Word) (c : Nat) (r : Reader W m Word) :
    Prop where
  reachable : (machine cap m Word).Reachable s
  publishPc : s.publishPc = PublishPc.idle
  reader : s.readers c = some r
  pc : r.thread.pc = ReadPc.idle
  behind : r.position < s.completed

namespace Behind

variable {p : Nat}

theorem quiescent (hb : Behind s c r) : Quiescent s.queue s.published := by
  have hring := Ring.reachable hb.reachable
  have hlength : s.published.length = s.completed := by
    rw [hring.length, hb.publishPc]
    rfl
  have hopened : s.opened = s.completed := by
    rw [opened, hb.publishPc]
    rfl
  have hstamped : s.stamped = s.completed := by
    rw [stamped, hb.publishPc]
    rfl
  have hsettled := hring.settled
  rw [hopened, hstamped, ← hlength] at hsettled
  constructor
  · rw [hlength]
    exact hring.cursor
  · exact hsettled

theorem cursors (hb : Behind s c r) : r.Cursors s.completed :=
  (Readers.reachable hb.reachable c r hb.reader).cursors

theorem readCursor_eq_iff (hb : Behind s c r) :
    r.thread.state.readCursor = s.queue.writeCursor <->
      2 ^ W ∣ s.completed - r.position := by
  rw [hb.cursors.state, (Ring.reachable hb.reachable).cursor,
    Words.ofNat_eq_iff_modEq, Nat.modEq_iff_dvd' (Nat.le_of_lt hb.behind)]

theorem slot_eq (hb : Behind s c r)
    (hp : LastInSlot cap r.position s.completed p) :
    exists v, s.published[p]? = some v ∧
      s.queue.slots (r.thread.state.slot cap) =
        ⟨BitVec.ofNat W (2 * p + 2), v⟩ := by
  have hlength : s.published.length = s.completed := by
    rw [(Ring.reachable hb.reachable).length, hb.publishPc]
    rfl
  have hpublished := hp.published
  have hget := List.getElem?_eq_getElem (show p < s.published.length by lia)
  refine ⟨_, hget, ?_⟩
  rw [hb.cursors.slot, ← cap.slotOf_eq_iff.mpr hp.slot]
  exact hb.quiescent.settled.holds p _ (by lia) (by rw [hlength]; exact hp.last)
    hget

/-- The sequence number comes back after `2 ^ (W - 1)` positions. -/
theorem expected_iff (hb : Behind s c r) (hle : r.position ≤ p) :
    BitVec.ofNat W (2 * p + 2) = r.thread.state.expectedSeq <->
      2 ^ (W - 1) ∣ p - r.position := by
  rw [hb.cursors.expectedSeq, show 2 * p + 2 = 2 * (p + 1) by lia,
    show 2 * r.position + 2 = 2 * (r.position + 1) by lia,
    Words.ofNat_two_mul_eq_iff cap.width_pos]
  constructor
  · intro hmod
    have hdvd := (Nat.modEq_iff_dvd' (Nat.succ_le_succ hle)).mp hmod.symm
    rw [show p + 1 - (r.position + 1) = p - r.position by lia] at hdvd
    exact hdvd
  · intro hdvd
    apply Nat.ModEq.symm
    rw [Nat.modEq_iff_dvd' (Nat.succ_le_succ hle),
      show p + 1 - (r.position + 1) = p - r.position by lia]
    exact hdvd

theorem readLoop_cases (hb : Behind s c r) (hle : r.position ≤ p)
    (hp : LastInSlot cap r.position s.completed p) {state : ConsumerState W}
    (hstate : state.readCursor = r.thread.state.readCursor) (fuel : Nat) :
    (2 ^ (W - 1) ∣ p - r.position ∧ exists v, s.published[p]? = some v ∧
      state.readLoop s.queue (fuel + 1) =
        some (ReadResult.value v, state.advance)) ∨
    (Not (2 ^ (W - 1) ∣ p - r.position) ∧
      state.readLoop s.queue (fuel + 1) =
        some (ReadResult.lapped (state.jump s.queue.writeCursor).1,
          (state.jump s.queue.writeCursor).2)) := by
  rcases hb.slot_eq hp with ⟨v, hget, hslot⟩
  have hexpected : state.expectedSeq = r.thread.state.expectedSeq := by
    rw [ConsumerState.expectedSeq, ConsumerState.expectedSeq, hstate]
  have hsame : state.slot cap = r.thread.state.slot cap := by
    rw [ConsumerState.slot, ConsumerState.slot, hstate]
  rw [hb.quiescent.readLoop_eq, hsame, hslot, hexpected]
  by_cases hdvd : 2 ^ (W - 1) ∣ p - r.position
  · left
    rw [if_pos ((hb.expected_iff hle).mpr hdvd)]
    exact ⟨hdvd, v, hget, rfl⟩
  · right
    rw [if_neg (fun heq => hdvd ((hb.expected_iff hle).mp heq))]
    exact ⟨hdvd, rfl⟩

theorem readLoop_outcome (hb : Behind s c r) (hchecks : ChecksSlot s r)
    (state : ConsumerState W)
    (hstate : state.readCursor = r.thread.state.readCursor) (fuel : Nat) :
    exists result state',
      state.readLoop s.queue (fuel + 1) = some (result, state') ∧
      forall p, r.position ≤ p -> LastInSlot cap r.position s.completed p ->
        Outcome s r p result := by
  rcases exists_lastInSlot cap hb.behind with ⟨q, hq, hlast⟩
  have hsame : forall p, LastInSlot cap r.position s.completed p -> p = q :=
    fun p hp => hp.unique hlast
  rcases hb.readLoop_cases hq hlast hstate fuel with
    ⟨hdvd, v, hget, hread⟩ | ⟨hdvd, hread⟩
  · refine ⟨_, _, hread, ?_⟩
    intro p _ hp
    rw [hsame p hp]
    exact Outcome.value v hchecks hdvd hget
  · refine ⟨_, _, hread, ?_⟩
    intro p _ hp
    rw [hsame p hp]
    exact Outcome.lapped _ hchecks hdvd

theorem tryRead_outcome (hb : Behind s c r) (fuel : Nat) :
    exists result state,
      r.thread.state.tryRead s.queue (fuel + 1) = some (result, state) ∧
      forall p, r.position ≤ p -> LastInSlot cap r.position s.completed p ->
        Outcome s r p result := by
  unfold ConsumerState.tryRead
  by_cases hlooks : r.thread.state.looksEmpty = true
  · rw [if_pos hlooks]
    by_cases hempty : r.thread.state.readCursor = s.queue.writeCursor
    · have hstill : (r.thread.state.readCursor == s.queue.writeCursor) = true :=
        beq_iff_eq.mpr hempty
      dsimp only [ConsumerState.isStillEmpty, ConsumerState.looksEmpty]
      rw [if_pos hstill]
      refine ⟨_, _, rfl, ?_⟩
      intro p _ _
      apply Outcome.empty
      intro hchecks
      exact hchecks hlooks hempty
    · have hstill : ¬ (r.thread.state.readCursor == s.queue.writeCursor) = true :=
        fun h => hempty (beq_iff_eq.mp h)
      dsimp only [ConsumerState.isStillEmpty, ConsumerState.looksEmpty]
      rw [if_neg hstill]
      exact hb.readLoop_outcome (fun _ => hempty)
        ⟨r.thread.state.readCursor, s.queue.writeCursor⟩ rfl fuel
  · rw [if_neg hlooks]
    exact hb.readLoop_outcome (fun h => absurd h hlooks) _ rfl fuel

theorem not_checksSlot_iff (hb : Behind s c r) :
    Not (ChecksSlot s r) <->
      r.thread.state.looksEmpty = true ∧
        2 ^ W ∣ s.completed - r.position := by
  rw [← hb.readCursor_eq_iff]
  unfold ChecksSlot
  constructor
  · intro h
    by_cases hlooks : r.thread.state.looksEmpty = true
    · constructor
      · exact hlooks
      · by_contra hne
        exact h (fun _ => hne)
    · exact absurd (fun h => absurd h hlooks) h
  · rintro ⟨hlooks, heq⟩ hchecks
    exact hchecks hlooks heq

/-- Less than a full turn behind the call reaches the slot. -/
theorem checksSlot_of_lt (hb : Behind s c r)
    (h : s.completed - r.position < 2 ^ W) : ChecksSlot s r := by
  by_contra hempty
  have hdvd := (hb.not_checksSlot_iff.mp hempty).right
  have hbehind := hb.behind
  have hzero := Nat.eq_zero_of_dvd_of_lt hdvd h
  lia

/-- A lag of up to `2 ^ (W - 1)` is classified correctly. -/
theorem classified (hb : Behind s c r) {result : ReadResult W m Word}
    (houtcome : forall p, r.position ≤ p ->
      LastInSlot cap r.position s.completed p -> Outcome s r p result)
    (hlag : s.completed - r.position ≤ 2 ^ (W - 1)) :
    ((exists v, result = ReadResult.value v ∧
        s.published[r.position]? = some v) <->
      s.completed ≤ r.position + cap.size) ∧
    ((exists skipped, result = ReadResult.lapped skipped) <->
      r.position + cap.size < s.completed) := by
  have hhalf : 2 ^ (W - 1) < 2 ^ W :=
    Nat.pow_lt_pow_right Nat.one_lt_two
      (Nat.sub_lt cap.width_pos Nat.one_pos)
  have hchecks := hb.checksSlot_of_lt (Nat.lt_of_le_of_lt hlag hhalf)
  have hbehind := hb.behind
  rcases exists_lastInSlot cap hbehind with ⟨q, hq, hlast⟩
  have hpublished := hlast.published
  rcases Nat.lt_or_eq_of_le hq with hlt | rfl
  · -- the position was overwritten, and not by a multiple of the period
    have hlapped := (hlast.lt_iff hq).mp hlt
    have hfar : Not (2 ^ (W - 1) ∣ q - r.position) := by
      intro hdvd
      have hzero := Nat.eq_zero_of_dvd_of_lt hdvd (by lia)
      lia
    cases houtcome q hq hlast with
    | empty hempty => exact absurd hchecks hempty
    | value v _ hdvd _ => exact absurd hdvd hfar
    | lapped skipped _ _ => simp [hlapped, Nat.not_le_of_lt hlapped]
  · have hkept := hlast.last
    cases houtcome r.position hq hlast with
    | empty hempty => exact absurd hchecks hempty
    | value v _ _ hget => simp [hget, hkept, Nat.not_lt_of_le hkept]
    | lapped skipped _ hdvd =>
        rw [Nat.sub_self] at hdvd
        exact absurd (Nat.dvd_zero _) hdvd

/-- At the next lag a later value is taken for the wanted one. -/
theorem stale (hb : Behind s c r) {result : ReadResult W m Word}
    (houtcome : forall p, r.position ≤ p ->
      LastInSlot cap r.position s.completed p -> Outcome s r p result)
    (hW : 2 ≤ W) (hlag : s.completed = r.position + (2 ^ (W - 1) + 1)) :
    exists v, result = ReadResult.value v ∧
      s.published[r.position + 2 ^ (W - 1)]? = some v := by
  have hhalf : 2 ^ (W - 1) + 1 < 2 ^ W := by
    have htwo : 2 ≤ 2 ^ (W - 1) := Nat.le_self_pow (by lia) 2
    rw [Words.two_pow_pred cap.width_pos]
    lia
  have hchecks := hb.checksSlot_of_lt (by rw [hlag]; lia)
  have hperiod : 2 ^ (W - 1) ∣ r.position + 2 ^ (W - 1) - r.position := by
    rw [Nat.add_sub_cancel_left]
  cases houtcome _ (Nat.le_add_right _ _) (lastInSlot_half cap hlag) with
  | empty hempty => exact absurd hchecks hempty
  | value v _ _ hget => exact ⟨v, rfl, hget⟩
  | lapped skipped _ hdvd => exact absurd hperiod hdvd

end Behind

/-!
## States at any lag
-/

theorem publishes_run (values : List (Payload m Word))
    (hpc : s.publishPc = PublishPc.idle) :
    exists actions s', (machine cap m Word).runFrom s actions = some s' ∧
      s'.publishPc = PublishPc.idle ∧ s'.readers = s.readers ∧
      s'.published = s.published ++ values ∧
      s'.completed = s.completed + values.length := by
  induction values generalizing s with
  | nil =>
      exact ⟨[], s, rfl, hpc, rfl, (List.append_nil _).symm, rfl⟩
  | cons value rest ih =>
      have hfirst := wholePublish_run hpc value
      rcases ih (s := { s with
          queue := s.queue.publish value
          publishPc := PublishPc.idle
          published := s.published ++ [value]
          completed := s.completed + 1 }) rfl with
        ⟨actions, s', hrun, hidle, hreaders, hpublished, hcompleted⟩
      refine ⟨wholePublish value ++ actions, s',
        Machine.runFrom_trans hfirst hrun, hidle, hreaders, ?_, ?_⟩
      · rw [hpublished, List.append_assoc]
        rfl
      · rw [hcompleted, List.length_cons]
        dsimp only
        lia

theorem exists_behind (cap : Capacity W) {values : List (Payload m Word)}
    (h : values ≠ []) :
    exists (s : System cap m Word) (r : Reader W m Word), Behind s 0 r ∧
      r.position = 0 ∧ s.published = values ∧ s.completed = values.length := by
  rcases publishes_run (s := System.new cap m Word) values rfl with
    ⟨actions, s, hrun, hidle, hreaders, hpublished, hcompleted⟩
  have hlength : s.completed = values.length := by
    rw [hcompleted]
    exact Nat.zero_add _
  refine ⟨s, Reader.new W m Word, ⟨⟨actions, hrun⟩, hidle, ?_, rfl, ?_⟩, rfl,
    hpublished, hlength⟩
  · rw [hreaders]
    exact Function.update_self (0 : Nat) (some (Reader.new W m Word))
      (fun _ => none)
  · rw [hlength]
    exact List.length_pos_iff.mpr h

/-!
## The exact limit
-/

/--
With no publish in progress the outcome of a call depends on the lag and on the
last position `p` in the slot only.  Every lag up to `2 ^ (W - 1)` is classified
correctly; at the next one the value of a later position is returned.
-/
theorem lap_detection_limit (cap : Capacity W) (m : Nat) (Word : Type _)
    [Zero Word] :
    (forall (s : System cap m Word) c r, Behind s c r -> forall fuel,
      exists result state,
        r.thread.state.tryRead s.queue (fuel + 1) = some (result, state) ∧
        (exists actions r', Reads s c r actions r' ∧
          Returned s r r' result state) ∧
        (result = ReadResult.empty <->
          r.thread.state.looksEmpty = true ∧
            2 ^ W ∣ s.completed - r.position) ∧
        (forall p, r.position ≤ p ->
          LastInSlot cap r.position s.completed p ->
          ((exists v, result = ReadResult.value v) <->
            ChecksSlot s r ∧ 2 ^ (W - 1) ∣ p - r.position) ∧
          (forall v, result = ReadResult.value v ->
            s.published[p]? = some v) ∧
          ((exists skipped, result = ReadResult.lapped skipped) <->
            ChecksSlot s r ∧ Not (2 ^ (W - 1) ∣ p - r.position))) ∧
        (s.completed - r.position ≤ 2 ^ (W - 1) ->
          ((exists v, result = ReadResult.value v ∧
              s.published[r.position]? = some v) <->
            s.completed ≤ r.position + cap.size) ∧
          ((exists skipped, result = ReadResult.lapped skipped) <->
            r.position + cap.size < s.completed)) ∧
        (2 ≤ W -> s.completed = r.position + (2 ^ (W - 1) + 1) ->
          exists v, result = ReadResult.value v ∧
            s.published[r.position + 2 ^ (W - 1)]? = some v)) ∧
    (forall values : List (Payload m Word), values ≠ [] ->
      exists (s : System cap m Word) (r : Reader W m Word), Behind s 0 r ∧
        r.position = 0 ∧ s.published = values ∧
        s.completed = values.length) := by
  constructor
  · intro s c r hb fuel
    rcases hb.tryRead_outcome fuel with ⟨result, state, hread, houtcome⟩
    refine ⟨result, state, hread, tryRead_reads hb.pc hread, ?_, ?_, ?_, ?_⟩
    · rcases exists_lastInSlot cap hb.behind with ⟨q, hq, hlast⟩
      rw [← hb.not_checksSlot_iff]
      exact (houtcome q hq hlast).empty_iff
    · intro p hle hp
      have h := houtcome p hle hp
      constructor
      · exact h.value_iff
      · constructor
        · intro v hvalue
          rw [hvalue] at h
          exact h.published
        · exact h.lapped_iff
    · exact hb.classified houtcome
    · exact hb.stale houtcome
  · intro values h
    exact exists_behind cap h

/-- With words of three bits the fifth value is returned for the first one. -/
theorem lap_detection_limit_stale :
    exists (s : System (⟨1#3, 0, rfl⟩ : Capacity 3) 1 Nat)
      (r : Reader 3 1 Nat) (state : ConsumerState 3),
      Behind s 0 r ∧ r.position = 0 ∧
        r.thread.state.tryRead s.queue 1 =
          some (ReadResult.value (fun _ => 14), state) := by
  rcases (lap_detection_limit (⟨1#3, 0, rfl⟩ : Capacity 3) 1 Nat).right
    [fun _ => 10, fun _ => 11, fun _ => 12, fun _ => 13, fun _ => 14]
    (List.cons_ne_nil _ _) with ⟨s, r, hb, hposition, hpublished, hcompleted⟩
  rcases (lap_detection_limit (⟨1#3, 0, rfl⟩ : Capacity 3) 1 Nat).left s 0 r hb
    0 with ⟨result, state, hread, _, _, _, _, hstale⟩
  rcases hstale (by decide) (by rw [hcompleted, hposition]; rfl) with
    ⟨v, rfl, hget⟩
  rw [hpublished, hposition] at hget
  cases hget
  exact ⟨s, r, state, hb, hposition, hread⟩

end System
end Spmc
end LowLatency
