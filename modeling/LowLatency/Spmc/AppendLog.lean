import LowLatency.Foundation.Machine
import LowLatency.Spmc.Consumer
import LowLatency.Spmc.Settled

/-!
# The append-only log behind the ring

Seen through whole operations the ring is a log with a private cursor per
consumer.  The reference below keeps the log and the cursors as unbounded
numbers and has no cached cursor at all.
-/

namespace LowLatency
namespace Spmc

open Foundation

inductive Op (m : Nat) (Word : Type _) where
  | publish (value : Payload m Word)
  | tryRead (c : Nat)
  | clone (parent child : Nat)

/-- An answer whose skipped counts are in `K`; `refused` has no consumer to use. -/
inductive Answer (K : Type _) (m : Nat) (Word : Type _) where
  | published
  | value (v : Payload m Word)
  | empty
  | lapped (skipped : K)
  | cloned
  | refused

namespace Answer

variable {W m : Nat} {Word : Type _}

def ofResult : ReadResult W m Word -> Answer (BitVec W) m Word
  | ReadResult.value v => value v
  | ReadResult.empty => empty
  | ReadResult.lapped skipped => lapped skipped

def count : Answer (BitVec W) m Word -> Answer Nat m Word
  | published => published
  | value v => value v
  | empty => empty
  | lapped skipped => lapped skipped.toNat
  | cloned => cloned
  | refused => refused

end Answer

/-!
## The reference
-/

inductive LogCursor where
  | live (r : Nat)
  | lost
deriving DecidableEq, Repr

structure AppendLog (m : Nat) (Word : Type _) where
  entries : List (Payload m Word)
  cursors : Nat -> Option LogCursor

namespace AppendLog

variable {m : Nat} {Word : Type _}

def new (m : Nat) (Word : Type _) : AppendLog m Word where
  entries := []
  cursors := Function.update (fun _ => none) 0 (some (LogCursor.live 0))

/-- `try_read` of a consumer with cursor `r`, and the cursor it moves to. -/
def readAt (entries : List (Payload m Word)) (capacity r : Nat) :
    Answer Nat m Word × Nat :=
  if r = entries.length then (Answer.empty, r)
  else if h : r < entries.length ∧ entries.length - r ≤ capacity then
    (Answer.value (entries.get ⟨r, h.left⟩), r + 1)
  else (Answer.lapped (entries.length - 1 - r), entries.length - 1)

/-- One operation; no answer is specified for a lost cursor. -/
def exec (capacity lag : Nat) (l : AppendLog m Word) :
    Op m Word -> Option (Answer Nat m Word) × AppendLog m Word
  | Op.publish value =>
      (some Answer.published, { l with entries := l.entries ++ [value] })
  | Op.tryRead c =>
      match l.cursors c with
      | none => (some Answer.refused, l)
      | some LogCursor.lost => (none, l)
      | some (LogCursor.live r) =>
          if l.entries.length - r ≤ lag then
            let (answer, r') := readAt l.entries capacity r
            (some answer,
              { l with
                cursors := Function.update l.cursors c
                  (some (LogCursor.live r')) })
          else
            (none,
              { l with
                cursors := Function.update l.cursors c
                  (some LogCursor.lost) })
  | Op.clone parent child =>
      match l.cursors parent, l.cursors child with
      | some cursor, none =>
          (some Answer.cloned,
            { l with
              cursors := Function.update l.cursors child (some cursor) })
      | _, _ => (some Answer.refused, l)

def answers (capacity lag : Nat) :
    AppendLog m Word -> List (Op m Word) -> List (Option (Answer Nat m Word))
  | _, [] => []
  | l, op :: rest =>
      let (answer, l') := exec capacity lag l op
      answer :: answers capacity lag l' rest

theorem readAt_last {entries : List (Payload m Word)} {capacity : Nat}
    (hcapacity : 0 < capacity) (h : entries ≠ []) :
    readAt entries capacity (entries.length - 1) =
      (Answer.value (entries.getLast h), entries.length) := by
  have hpos := List.length_pos_iff.mpr h
  have hne : entries.length - 1 ≠ entries.length := by lia
  have hlt : entries.length - 1 < entries.length ∧
      entries.length - (entries.length - 1) ≤ capacity := by lia
  rw [readAt, if_neg hne, dif_pos hlt, List.getLast_eq_getElem,
    Nat.sub_add_cancel hpos]
  rfl

end AppendLog

/-!
## The implementation as whole operations
-/

structure Broadcast {W : Nat} (cap : Capacity W) (m : Nat) (Word : Type _) where
  queue : Queue cap m Word
  consumers : Nat -> Option (ConsumerState W)

namespace Broadcast

variable {W : Nat} {cap : Capacity W} {m : Nat} {Word : Type _}

def new (cap : Capacity W) (m : Nat) (Word : Type _) [Zero Word] :
    Broadcast cap m Word where
  queue := Queue.new cap m Word
  consumers := Function.update (fun _ => none) 0 (some (ConsumerState.new W))

/-- One operation; `none` when a read does not finish within `fuel` iterations. -/
def exec (fuel : Nat) (b : Broadcast cap m Word) :
    Op m Word -> Option (Answer (BitVec W) m Word × Broadcast cap m Word)
  | Op.publish value =>
      some (Answer.published, { b with queue := b.queue.publish value })
  | Op.tryRead c =>
      match b.consumers c with
      | none => some (Answer.refused, b)
      | some state =>
          match state.tryRead b.queue fuel with
          | none => none
          | some (result, state') =>
              some (Answer.ofResult result,
                { b with
                  consumers := Function.update b.consumers c (some state') })
  | Op.clone parent child =>
      match b.consumers parent, b.consumers child with
      | some state, none =>
          some (Answer.cloned,
            { b with
              consumers := Function.update b.consumers child (some state) })
      | _, _ => some (Answer.refused, b)

def answers (fuel : Nat) :
    Broadcast cap m Word -> List (Op m Word) ->
      Option (List (Answer (BitVec W) m Word))
  | _, [] => some []
  | b, op :: rest =>
      match exec fuel b op with
      | none => none
      | some (answer, b') => (answers fuel b' rest).map (answer :: ·)

end Broadcast

/-!
## Whole operations on a settled ring
-/

section Operations

variable {W : Nat} {cap : Capacity W} {m : Nat} {Word : Type _} [Zero Word]
variable {q : Queue cap m Word} {entries : List (Payload m Word)}

structure Quiescent (q : Queue cap m Word) (entries : List (Payload m Word)) :
    Prop where
  cursor : q.writeCursor = BitVec.ofNat W entries.length
  settled : Settled q entries entries.length entries.length

namespace Quiescent

theorem new (cap : Capacity W) (m : Nat) (Word : Type _) [Zero Word] :
    Quiescent (Queue.new cap m Word) [] :=
  ⟨rfl, Settled.new cap m Word⟩

theorem publish (hq : Quiescent q entries) (value : Payload m Word) :
    Quiescent (q.publish value) (entries ++ [value]) := by
  have hlength : (entries ++ [value]).length = entries.length + 1 :=
    List.length_append
  have hget : (entries ++ [value])[entries.length]? = some value :=
    List.getElem?_concat_length
  have happend := hq.settled.append (Nat.le_refl _) value
  have hopen := happend.openSlot (q.writeCursor * 2#W + 1#W)
  have hdata := hopen.writeData value
  have hwritten := congrArg Slot.data (Queue.writeData_slots_self
    (q.storeSeq (cap.slotOf entries.length) (q.writeCursor * 2#W + 1#W))
    (cap.slotOf entries.length) value)
  have hstamp := hdata.stamp hget hwritten
  have hseq : q.writeCursor * 2#W + 2#W =
      BitVec.ofNat W (2 * entries.length + 2) := by
    rw [hq.cursor, Words.ofNat_mul_two]
    exact BitVec.ofNat_add_ofNat _ 2
  constructor
  · rw [hlength, ← BitVec.ofNat_add_ofNat, ← hq.cursor]
    rfl
  · rw [hlength]
    apply hstamp.of_slots
    rw [Queue.publish, hseq, hq.cursor]
    rfl

theorem seq_even (hq : Quiescent q entries) (j : Fin cap.size) :
    (q.slots j).seq &&& 1#W ≠ 1#W := by
  have hj := cap.slotOf_val j
  have hW := cap.width_pos
  rcases Nat.lt_or_ge j.val entries.length with hlt | hge
  · rcases hq.settled.slot_cases (Nat.le_refl _) (Nat.le_refl _) hlt with
      ⟨_, value, _, hslot⟩ | ⟨_, e, _, _, he, hslot⟩
    · rw [hj] at hslot
      rw [hslot]
      exact Words.odd_test_even hW (j.val + 1)
    · rcases hslot he with ⟨value, _, hslot⟩
      rw [hj] at hslot
      rw [hslot]
      exact Words.odd_test_even hW (e + 1)
  · have hslot := hq.settled.fresh j.val hge j.isLt
    rw [hj] at hslot
    rw [hslot]
    exact Words.odd_test_even hW 0

theorem readLoop_eq (hq : Quiescent q entries) (c : ConsumerState W)
    (fuel : Nat) :
    c.readLoop q (fuel + 1) =
      if (q.slots (c.slot cap)).seq = c.expectedSeq then
        some (ReadResult.value (q.slots (c.slot cap)).data, c.advance)
      else
        some (ReadResult.lapped (c.jump q.writeCursor).1,
          (c.jump q.writeCursor).2) := by
  have heven : ((q.slots (c.slot cap)).seq &&& 1#W == 1#W) = false := by
    simpa using hq.seq_even (c.slot cap)
  rw [ConsumerState.readLoop]
  simp only [heven, Bool.false_eq_true, if_false]
  by_cases hseq : (q.slots (c.slot cap)).seq = c.expectedSeq
  · simp [hseq]
  · simp [hseq]

theorem tryRead_isSome (hq : Quiescent q entries) (c : ConsumerState W)
    (fuel : Nat) : (c.tryRead q (fuel + 1)).isSome = true := by
  have hloop : forall c : ConsumerState W,
      (c.readLoop q (fuel + 1)).isSome = true := by
    intro c
    rw [hq.readLoop_eq]
    split <;> rfl
  unfold ConsumerState.tryRead
  split
  · dsimp only
    split
    · rfl
    · exact hloop _
  · exact hloop _

theorem looksEmpty_eq {r n : Nat} (hle : r ≤ n) (hlag : n - r < 2 ^ W) :
    ConsumerState.looksEmpty
      ⟨BitVec.ofNat W r, BitVec.ofNat W n⟩ = decide (r = n) := by
  rw [Bool.eq_iff_iff, decide_eq_true_iff]
  simp only [ConsumerState.looksEmpty, beq_iff_eq]
  constructor
  · intro h
    exact Words.eq_of_ofNat_eq hle (by lia) h
  · intro h
    rw [h]

end Quiescent

/-- The cursor words of a consumer at position `r`, however stale its cache. -/
def Tracks (n : Nat) (c : ConsumerState W) (r : Nat) : Prop :=
  exists cached, c = ⟨BitVec.ofNat W r, BitVec.ofNat W cached⟩ ∧
    r ≤ cached ∧ cached ≤ n

namespace Quiescent

theorem readLoop_spec (hq : Quiescent q entries) {r cached : Nat}
    (hlt : r < cached) (hcached : cached ≤ entries.length)
    (hlag : entries.length - r ≤ 2 ^ (W - 1)) (fuel : Nat) :
    exists result c',
      ConsumerState.readLoop ⟨BitVec.ofNat W r, BitVec.ofNat W cached⟩ q
        (fuel + 1) = some (result, c') ∧
      Tracks entries.length c' (AppendLog.readAt entries cap.size r).2 ∧
      (Answer.ofResult result).count =
        (AppendLog.readAt entries cap.size r).1 := by
  have hexpected : ConsumerState.expectedSeq
      ⟨BitVec.ofNat W r, BitVec.ofNat W cached⟩ =
        BitVec.ofNat W (2 * r + 2) := by
    rw [ConsumerState.expectedSeq, Words.ofNat_mul_two]
    exact BitVec.ofNat_add_ofNat _ 2
  have hslotOf : ConsumerState.slot cap
      ⟨BitVec.ofNat W r, BitVec.ofNat W cached⟩ = cap.slotOf r := rfl
  have hne : r ≠ entries.length := by lia
  rw [hq.readLoop_eq, hexpected, hslotOf]
  rcases hq.settled.slot_cases (Nat.le_refl _) (Nat.le_refl _)
    (show r < entries.length by lia) with
    ⟨hopen, value, hget, hslot⟩ | ⟨hlapped, e, hmod, hlap, he, hslot⟩
  · -- the position is still in its slot
    rcases List.getElem?_eq_some_iff.mp hget with ⟨hlength, hvalue⟩
    have hclose : r < entries.length ∧ entries.length - r ≤ cap.size := by
      lia
    rw [AppendLog.readAt, if_neg hne, dif_pos hclose, hslot, if_pos rfl]
    refine ⟨_, _, rfl, ⟨cached, ?_, hlt, hcached⟩, ?_⟩
    · rw [ConsumerState.advance, BitVec.ofNat_add_ofNat]
    · exact congrArg Answer.value hvalue.symm
  · -- a later lap has overwritten it
    rcases hslot he with ⟨value, _, hslot⟩
    have hpos := cap.size_pos
    have hfar : Not (r < entries.length ∧
        entries.length - r ≤ cap.size) := by
      lia
    have hseq : BitVec.ofNat W (2 * e + 2) ≠ BitVec.ofNat W (2 * r + 2) := by
      intro heq
      have hsame := Words.eq_of_ofNat_two_mul_eq cap.width_pos
        (show r + 1 ≤ e + 1 by lia) (by lia) heq.symm
      lia
    have hhalf : 2 ^ (W - 1) ≤ 2 ^ W :=
      Nat.pow_le_pow_right Nat.two_pos (Nat.sub_le W 1)
    rw [AppendLog.readAt, if_neg hne, dif_neg hfar, hslot, if_neg hseq,
      hq.cursor]
    refine ⟨_, _, rfl, ⟨entries.length, ?_, Nat.sub_le _ _,
      Nat.le_refl _⟩, ?_⟩
    · rw [ConsumerState.jump, ← Words.ofNat_sub_ofNat (by lia)]
    · change Answer.lapped
        (BitVec.ofNat W entries.length - 1#W - BitVec.ofNat W r).toNat = _
      rw [Words.ofNat_sub_ofNat (by lia), Words.ofNat_sub_ofNat (by lia),
        BitVec.toNat_ofNat, Nat.mod_eq_of_lt (by lia)]

/-- A whole `try_read` answers like the reference, whatever it has cached. -/
theorem tryRead_spec (hq : Quiescent q entries) {c : ConsumerState W}
    {r : Nat} (hc : Tracks entries.length c r)
    (hlag : entries.length - r ≤ 2 ^ (W - 1)) (fuel : Nat) :
    exists result c', c.tryRead q (fuel + 1) = some (result, c') ∧
      Tracks entries.length c' (AppendLog.readAt entries cap.size r).2 ∧
      (Answer.ofResult result).count =
        (AppendLog.readAt entries cap.size r).1 := by
  rcases hc with ⟨cached, rfl, hle, hcached⟩
  have hhalf : 2 ^ (W - 1) < 2 ^ W :=
    Nat.pow_lt_pow_right Nat.one_lt_two
      (Nat.sub_lt cap.width_pos Nat.zero_lt_one)
  have hlooks := looksEmpty_eq hle (show cached - r < 2 ^ W by lia)
  rw [ConsumerState.tryRead, hlooks]
  rcases Nat.lt_or_eq_of_le hle with hlt | rfl
  · rw [if_neg (by simpa using Nat.ne_of_lt hlt)]
    exact hq.readLoop_spec hlt hcached hlag fuel
  · have hreload := looksEmpty_eq hcached
      (show entries.length - r < 2 ^ W by lia)
    rw [if_pos (by simp)]
    simp only [ConsumerState.isStillEmpty, hq.cursor, hreload]
    rcases Nat.lt_or_eq_of_le hcached with hlt | heq
    · rw [if_neg (by simpa using Nat.ne_of_lt hlt)]
      exact hq.readLoop_spec hlt (Nat.le_refl _) hlag fuel
    · rw [if_pos (by simpa using heq), AppendLog.readAt, if_pos heq]
      exact ⟨_, _, rfl, ⟨entries.length, rfl, hcached, Nat.le_refl _⟩, rfl⟩

end Quiescent
end Operations

/-!
## The simulation
-/

section Simulation

variable {W : Nat} {cap : Capacity W} {m : Nat} {Word : Type _}

inductive Follows (n : Nat) :
    Option (ConsumerState W) -> Option LogCursor -> Prop where
  | absent : Follows n none none
  | live {c : ConsumerState W} {r : Nat} :
      Tracks n c r -> Follows n (some c) (some (LogCursor.live r))
  | lost (c : ConsumerState W) : Follows n (some c) (some LogCursor.lost)

structure Simulates [Zero Word] (b : Broadcast cap m Word) (l : AppendLog m Word) :
    Prop where
  quiescent : Quiescent b.queue l.entries
  consumers : forall c,
    Follows l.entries.length (b.consumers c) (l.cursors c)

def Meets (answer : Answer (BitVec W) m Word)
    (spec : Option (Answer Nat m Word)) : Prop :=
  forall x, spec = some x -> answer.count = x

theorem count_eq_of_meets {given : List (Answer (BitVec W) m Word)}
    {specs : List (Answer Nat m Word)}
    (h : List.Forall₂ Meets given (specs.map some)) :
    given.map Answer.count = specs := by
  induction specs generalizing given with
  | nil =>
      cases h
      rfl
  | cons spec rest ih =>
      cases h with
      | cons hmeets hrest =>
          rw [List.map_cons, hmeets spec rfl, ih hrest]

theorem Follows.mono {n n' : Nat} {c : Option (ConsumerState W)}
    {cursor : Option LogCursor} (h : Follows n c cursor) (hle : n ≤ n') :
    Follows n' c cursor := by
  cases h with
  | absent => exact Follows.absent
  | live htracks =>
      rcases htracks with ⟨cached, hc, hr, hcached⟩
      exact Follows.live ⟨cached, hc, hr, Nat.le_trans hcached hle⟩
  | lost c => exact Follows.lost c

namespace Simulates

variable [Zero Word]
variable {b : Broadcast cap m Word} {l : AppendLog m Word}

theorem new (cap : Capacity W) (m : Nat) (Word : Type _) [Zero Word] :
    Simulates (Broadcast.new cap m Word) (AppendLog.new m Word) := by
  constructor
  · exact Quiescent.new cap m Word
  · have hstart : Tracks 0 (ConsumerState.new W) 0 :=
      ⟨0, rfl, Nat.le_refl _, Nat.le_refl _⟩
    exact update_related (fun _ => Follows.absent) 0 (Follows.live hstart)

theorem publish (hs : Simulates b l) (value : Payload m Word) :
    Simulates { b with queue := b.queue.publish value }
      { l with entries := l.entries ++ [value] } := by
  constructor
  · exact hs.quiescent.publish value
  · intro c
    refine (hs.consumers c).mono ?_
    rw [List.length_append]
    exact Nat.le_add_right _ _

theorem update (hs : Simulates b l) (c : Nat) {state : ConsumerState W}
    {cursor : LogCursor}
    (h : Follows l.entries.length (some state) (some cursor)) :
    Simulates
      { b with consumers := Function.update b.consumers c (some state) }
      { l with cursors := Function.update l.cursors c (some cursor) } := by
  constructor
  · exact hs.quiescent
  · exact update_related hs.consumers c h

theorem tryRead (hs : Simulates b l) (c fuel : Nat) :
    exists answer b',
      b.exec (fuel + 1) (Op.tryRead c) = some (answer, b') ∧
      Simulates b' (l.exec cap.size (2 ^ (W - 1)) (Op.tryRead c)).2 ∧
      Meets answer (l.exec cap.size (2 ^ (W - 1)) (Op.tryRead c)).1 := by
  have hfollows := hs.consumers c
  simp only [Broadcast.exec, AppendLog.exec]
  cases hstate : b.consumers c with
  | none =>
      cases hcursor : l.cursors c with
      | none =>
          refine ⟨_, _, rfl, hs, ?_⟩
          intro x hx
          exact Option.some.inj hx
      | some cursor =>
          rw [hstate, hcursor] at hfollows
          cases hfollows
  | some state =>
      cases hcursor : l.cursors c with
      | none =>
          rw [hstate, hcursor] at hfollows
          cases hfollows
      | some cursor =>
          rw [hstate, hcursor] at hfollows
          -- whatever the read does when its answer is not specified
          rcases Option.isSome_iff_exists.mp
            (hs.quiescent.tryRead_isSome state fuel) with
            ⟨⟨result, state'⟩, hread⟩
          have hunspecified := hs.update c
            (Follows.lost (n := l.entries.length) state')
          cases hfollows with
          | lost =>
              refine ⟨Answer.ofResult result,
                { b with
                  consumers := Function.update b.consumers c (some state') },
                by simp only [hread], ?_, ?_⟩
              · have heq : Function.update l.cursors c
                    (some LogCursor.lost) = l.cursors := by
                  rw [← hcursor]
                  exact Function.update_eq_self c l.cursors
                rw [heq] at hunspecified
                exact hunspecified
              · intro x hx
                cases hx
          | live htracks =>
              rename_i r
              by_cases hlag : l.entries.length - r ≤ 2 ^ (W - 1)
              · rcases hs.quiescent.tryRead_spec htracks hlag fuel with
                  ⟨result, state', hread, htracks', hanswer⟩
                simp only [if_pos hlag]
                refine ⟨Answer.ofResult result, _, by simp only [hread],
                  hs.update c (Follows.live htracks'), ?_⟩
                intro x hx
                rw [hanswer]
                exact Option.some.inj hx
              · simp only [if_neg hlag]
                refine ⟨Answer.ofResult result, _, by simp only [hread],
                  hunspecified, ?_⟩
                intro x hx
                cases hx

theorem clone (hs : Simulates b l) (parent child fuel : Nat) :
    exists answer b',
      b.exec (fuel + 1) (Op.clone parent child) = some (answer, b') ∧
      Simulates b'
        (l.exec cap.size (2 ^ (W - 1)) (Op.clone parent child)).2 ∧
      Meets answer
        (l.exec cap.size (2 ^ (W - 1)) (Op.clone parent child)).1 := by
  have hparent := hs.consumers parent
  have hchild := hs.consumers child
  simp only [Broadcast.exec, AppendLog.exec]
  generalize hstate : b.consumers parent = state at hparent ⊢
  generalize hcursor : l.cursors parent = cursor at hparent ⊢
  generalize hstate' : b.consumers child = state' at hchild ⊢
  generalize hcursor' : l.cursors child = cursor' at hchild ⊢
  have hrefused : Meets (Answer.refused : Answer (BitVec W) m Word)
      (some Answer.refused) := fun x hx => Option.some.inj hx
  have hcloned : Meets (Answer.cloned : Answer (BitVec W) m Word)
      (some Answer.cloned) := fun x hx => Option.some.inj hx
  cases hparent with
  | absent => exact ⟨_, _, rfl, hs, hrefused⟩
  | live htracks =>
      cases hchild with
      | absent => exact ⟨_, _, rfl, hs.update child (Follows.live htracks), hcloned⟩
      | live _ => exact ⟨_, _, rfl, hs, hrefused⟩
      | lost _ => exact ⟨_, _, rfl, hs, hrefused⟩
  | lost c =>
      cases hchild with
      | absent => exact ⟨_, _, rfl, hs.update child (Follows.lost c), hcloned⟩
      | live _ => exact ⟨_, _, rfl, hs, hrefused⟩
      | lost _ => exact ⟨_, _, rfl, hs, hrefused⟩

theorem exec (hs : Simulates b l) (op : Op m Word) (fuel : Nat) :
    exists answer b', b.exec (fuel + 1) op = some (answer, b') ∧
      Simulates b' (l.exec cap.size (2 ^ (W - 1)) op).2 ∧
      Meets answer (l.exec cap.size (2 ^ (W - 1)) op).1 := by
  cases op with
  | publish value =>
      refine ⟨_, _, rfl, hs.publish value, ?_⟩
      intro x hx
      exact Option.some.inj hx
  | tryRead c => exact hs.tryRead c fuel
  | clone parent child => exact hs.clone parent child fuel

theorem answers (hs : Simulates b l) (ops : List (Op m Word)) (fuel : Nat) :
    exists given, b.answers (fuel + 1) ops = some given ∧
      List.Forall₂ Meets given
        (l.answers cap.size (2 ^ (W - 1)) ops) := by
  induction ops generalizing b l with
  | nil => exact ⟨[], rfl, List.Forall₂.nil⟩
  | cons op rest ih =>
      rcases hs.exec op fuel with ⟨answer, b', hexec, hs', hmeets⟩
      rcases ih hs' with ⟨given, hgiven, hrest⟩
      refine ⟨answer :: given, ?_, List.Forall₂.cons hmeets hrest⟩
      simp only [Broadcast.answers, hexec, hgiven, Option.map_some]

end Simulates

/--
Whole operations answer like the append-only log with private cursors, for
every consumer that has not been read with a lag beyond `2 ^ (W - 1)`; no read
needs a second iteration.  If no read has such a lag, all answers agree.  The
read after a lap returns the last value.
-/
theorem refines_append_log (cap : Capacity W) (m : Nat) (Word : Type _)
    [Zero Word] (ops : List (Op m Word)) (fuel : Nat) :
    (exists given,
      (Broadcast.new cap m Word).answers (fuel + 1) ops = some given ∧
      List.Forall₂ Meets given
        ((AppendLog.new m Word).answers cap.size (2 ^ (W - 1)) ops) ∧
      (forall specs,
        (AppendLog.new m Word).answers cap.size (2 ^ (W - 1)) ops =
          specs.map some ->
        given.map Answer.count = specs)) ∧
    (forall (entries : List (Payload m Word)) (h : entries ≠ []),
      AppendLog.readAt entries cap.size (entries.length - 1) =
        (Answer.value (entries.getLast h), entries.length)) := by
  constructor
  · rcases (Simulates.new cap m Word).answers ops fuel with
      ⟨given, hgiven, hmeets⟩
    refine ⟨given, hgiven, hmeets, ?_⟩
    intro specs hspecs
    rw [hspecs] at hmeets
    exact count_eq_of_meets hmeets
  · intro entries h
    exact AppendLog.readAt_last cap.size_pos h

end Simulation
end Spmc
end LowLatency
