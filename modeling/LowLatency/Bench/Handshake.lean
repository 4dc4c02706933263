import LowLatency.Bench.Streams

/-!
# The end of a stream

The producer of a bench publishes its items and then stores `done`.  The
consumer polls until the queue is empty, loads `done`, and goes on polling
unless it is set.  The handoff benches drain the queue once more before they
stop; the two others stop at once.
-/

namespace LowLatency
namespace Bench

open Foundation

universe u

variable {T : Type u}

inductive ConsumerPc where
  | polling
  | loadDone
  | draining
  | exited
deriving DecidableEq, Repr

structure System (Q : PolledQueue T) where
  queue : Q.State
  done : Bool
  pc : ConsumerPc
  published : List T
  answers : List (Polled T)
  /-- The number of items published when the queue was last found empty. -/
  emptyAt : Nat

inductive Action (T : Type u) where
  | publish (item : T)
  | storeDone
  | poll (jump : Option Nat)
  | loadDone
deriving DecidableEq, Repr

namespace System

variable {Q : PolledQueue T}

/-- An attempt to publish; a refused one changes nothing. -/
def publish (s : System Q) (item : T) : Option (System Q) :=
  if s.done then none
  else
    match Q.publish s.queue item with
    | some q =>
        some { s with queue := q, published := s.published ++ [item] }
    | none => some s

def storeDone (s : System Q) : Option (System Q) :=
  if s.done then none else some { s with done := true }

/-- An answer while the consumer is at `pc`; `next` follows `Empty`. -/
def answered (s : System Q) (next : ConsumerPc) :
    Option (Polled T × Q.State) -> Option (System Q)
  | none => none
  | some (Polled.empty, q) =>
      some { s with
        queue := q
        pc := next
        answers := s.answers ++ [Polled.empty]
        emptyAt := s.published.length }
  | some (answer, q) =>
      some { s with queue := q, answers := s.answers ++ [answer] }

/-- The consumer loop of the handoff benches: after `done` it drains the queue. -/
def drainingStep (s : System Q) : Action T -> Option (System Q)
  | Action.publish item => s.publish item
  | Action.storeDone => s.storeDone
  | Action.poll jump =>
      match s.pc with
      | ConsumerPc.polling =>
          s.answered ConsumerPc.loadDone (Q.poll s.queue jump)
      | ConsumerPc.draining =>
          s.answered ConsumerPc.exited (Q.poll s.queue jump)
      | _ => none
  | Action.loadDone =>
      match s.pc with
      | ConsumerPc.loadDone =>
          some { s with
            pc := if s.done then ConsumerPc.draining else ConsumerPc.polling }
      | _ => none

/-- The consumer loop of the two timed benches: `done` ends it. -/
def exitingStep (s : System Q) : Action T -> Option (System Q)
  | Action.publish item => s.publish item
  | Action.storeDone => s.storeDone
  | Action.poll jump =>
      match s.pc with
      | ConsumerPc.polling =>
          s.answered ConsumerPc.loadDone (Q.poll s.queue jump)
      | _ => none
  | Action.loadDone =>
      match s.pc with
      | ConsumerPc.loadDone =>
          some { s with
            pc := if s.done then ConsumerPc.exited else ConsumerPc.polling }
      | _ => none

def start (Q : PolledQueue T) : System Q :=
  ⟨Q.start, false, ConsumerPc.polling, [], [], 0⟩

end System

def drainingMachine (Q : PolledQueue T) : Machine (System Q) (Action T) :=
  ⟨System.start Q, System.drainingStep⟩

def exitingMachine (Q : PolledQueue T) : Machine (System Q) (Action T) :=
  ⟨System.start Q, System.exitingStep⟩

def runSpscHandoff (capacity : Nat) (T : Type u) :
    Machine (System (fifo capacity T)) (Action T) :=
  drainingMachine (fifo capacity T)

def runSpmcHandoff (T : Type u) : Machine (System (lapLog T)) (Action T) :=
  drainingMachine (lapLog T)

/-- The threads of `measure` in the lapped bench. -/
def measure (T : Type u) : Machine (System (lapLog T)) (Action T) :=
  exitingMachine (lapLog T)

def runSpmcCapacitySweepOne (T : Type u) :
    Machine (System (lapLog T)) (Action T) :=
  exitingMachine (lapLog T)

namespace System

variable {Q : PolledQueue T} {s s' : System Q} {told : ConsumerPc}
variable {a : Action T}

/-!
## What each step does
-/

/-- A step of a loop that goes to `told` when it finds `done` set. -/
inductive Moved (told : ConsumerPc) (s : System Q) :
    Action T -> System Q -> Prop where
  | published (item : T) (q : Q.State) (hdone : s.done = false)
      (hpublish : Q.publish s.queue item = some q) :
      Moved told s (Action.publish item)
        { s with queue := q, published := s.published ++ [item] }
  | refused (item : T) (hdone : s.done = false) :
      Moved told s (Action.publish item) s
  | stored (hdone : s.done = false) :
      Moved told s Action.storeDone { s with done := true }
  | answered (jump : Option Nat) (answer : Polled T) (q : Q.State)
      (hpc : s.pc = ConsumerPc.polling ∨ s.pc = ConsumerPc.draining)
      (hpoll : Q.poll s.queue jump = some (answer, q))
      (hanswer : answer ≠ Polled.empty) :
      Moved told s (Action.poll jump)
        { s with queue := q, answers := s.answers ++ [answer] }
  | foundEmpty (jump : Option Nat) (q : Q.State) (next : ConsumerPc)
      (hpc : (s.pc = ConsumerPc.polling ∧ next = ConsumerPc.loadDone) ∨
        (s.pc = ConsumerPc.draining ∧ next = ConsumerPc.exited))
      (hpoll : Q.poll s.queue jump = some (Polled.empty, q)) :
      Moved told s (Action.poll jump)
        { s with
          queue := q
          pc := next
          answers := s.answers ++ [Polled.empty]
          emptyAt := s.published.length }
  | unset (hpc : s.pc = ConsumerPc.loadDone) (hdone : s.done = false) :
      Moved told s Action.loadDone { s with pc := ConsumerPc.polling }
  | foundSet (hpc : s.pc = ConsumerPc.loadDone) (hdone : s.done = true) :
      Moved told s Action.loadDone { s with pc := told }

namespace Moved

theorem of_publish {item : T} (h : s.publish item = some s') :
    Moved told s (Action.publish item) s' := by
  unfold publish at h
  split at h
  · cases h
  · rename_i hdone
    have hopen := Bool.eq_false_iff.mpr hdone
    split at h
    · rename_i q hq
      rw [← Option.some.inj h]
      exact Moved.published item q hopen hq
    · rw [← Option.some.inj h]
      exact Moved.refused item hopen

theorem of_storeDone (h : s.storeDone = some s') :
    Moved told s Action.storeDone s' := by
  unfold storeDone at h
  split at h
  · cases h
  · rename_i hdone
    rw [← Option.some.inj h]
    exact Moved.stored (Bool.eq_false_iff.mpr hdone)

theorem of_answered {jump : Option Nat} {next : ConsumerPc}
    (hpc : (s.pc = ConsumerPc.polling ∧ next = ConsumerPc.loadDone) ∨
      (s.pc = ConsumerPc.draining ∧ next = ConsumerPc.exited))
    (h : s.answered next (Q.poll s.queue jump) = some s') :
    Moved told s (Action.poll jump) s' := by
  unfold System.answered at h
  split at h
  · cases h
  · rename_i q hpoll
    rw [← Option.some.inj h]
    exact Moved.foundEmpty jump q next hpc hpoll
  · rename_i answer q hanswer hpoll
    rw [← Option.some.inj h]
    exact Moved.answered jump answer q
      (hpc.imp And.left And.left) hpoll hanswer

theorem of_draining (h : s.drainingStep a = some s') :
    Moved ConsumerPc.draining s a s' := by
  cases a with
  | publish item => exact of_publish h
  | storeDone => exact of_storeDone h
  | poll jump =>
      simp only [drainingStep] at h
      split at h
      · rename_i hpc
        exact of_answered (Or.inl ⟨hpc, rfl⟩) h
      · rename_i hpc
        exact of_answered (Or.inr ⟨hpc, rfl⟩) h
      · cases h
  | loadDone =>
      simp only [drainingStep] at h
      split at h
      · rename_i hpc
        rw [← Option.some.inj h]
        split
        · rename_i hdone
          exact Moved.foundSet hpc hdone
        · rename_i hdone
          exact Moved.unset hpc (Bool.eq_false_iff.mpr hdone)
      · cases h

theorem of_exiting (h : s.exitingStep a = some s') :
    Moved ConsumerPc.exited s a s' := by
  cases a with
  | publish item => exact of_publish h
  | storeDone => exact of_storeDone h
  | poll jump =>
      simp only [exitingStep] at h
      split at h
      · rename_i hpc
        exact of_answered (Or.inl ⟨hpc, rfl⟩) h
      · cases h
  | loadDone =>
      simp only [exitingStep] at h
      split at h
      · rename_i hpc
        rw [← Option.some.inj h]
        split
        · rename_i hdone
          exact Moved.foundSet hpc hdone
        · rename_i hdone
          exact Moved.unset hpc (Bool.eq_false_iff.mpr hdone)
      · cases h

end Moved

/-!
## The invariant
-/

structure Streamed (s : System Q) : Prop where
  accounts : Accounts s.published s.answers (Q.unread s.queue)
  ended : s.pc = ConsumerPc.draining ∨ s.pc = ConsumerPc.exited ->
    s.done = true
  sinceEmpty : s.pc = ConsumerPc.loadDone ->
    s.published.length = s.emptyAt + (Q.unread s.queue).length

namespace Streamed

theorem start (Q : PolledQueue T) : Streamed (System.start Q) where
  accounts := by
    show Accounts [] [] (Q.unread Q.start)
    rw [Q.unread_start]
    exact Accounts.nil
  ended := by
    intro hpc
    rcases hpc with hpc | hpc
    · cases hpc
    · cases hpc
  sinceEmpty := by
    intro hpc
    cases hpc

theorem moved (hs : Streamed s) (h : Moved told s a s')
    (htold : told ≠ ConsumerPc.loadDone) : Streamed s' := by
  cases h with
  | published item q hdone hpublish =>
      have hunread := Q.unread_publish hpublish
      constructor
      · show Accounts (s.published ++ [item]) s.answers (Q.unread q)
        rw [hunread]
        exact hs.accounts.publish item
      · exact hs.ended
      · intro hpc
        have hsince := hs.sinceEmpty hpc
        show (s.published ++ [item]).length =
          s.emptyAt + (Q.unread q).length
        rw [hunread, List.length_append, List.length_append, hsince]
        exact Nat.add_assoc _ _ _
  | refused item hdone => exact hs
  | stored hdone => exact { hs with ended := fun _ => rfl }
  | answered jump answer q hpc hpoll hanswer =>
      constructor
      · exact hs.accounts.answer (Q.unread_poll hpoll)
      · exact hs.ended
      · intro hload
        have hload : s.pc = ConsumerPc.loadDone := hload
        rw [hload] at hpc
        rcases hpc with hpc | hpc
        · cases hpc
        · cases hpc
  | foundEmpty jump q next hpc hpoll =>
      have htakes := Q.unread_poll hpoll
      constructor
      · exact hs.accounts.answer htakes
      · intro hend
        rcases hpc with ⟨_, rfl⟩ | ⟨hdraining, rfl⟩
        · rcases hend with hend | hend
          · cases hend
          · cases hend
        · exact hs.ended (Or.inl hdraining)
      · intro _
        show s.published.length = s.published.length + (Q.unread q).length
        rw [htakes.right]
        rfl
  | unset hpc hdone =>
      constructor
      · exact hs.accounts
      · intro hend
        rcases hend with hend | hend
        · cases hend
        · cases hend
      · intro hload
        cases hload
  | foundSet hpc hdone =>
      constructor
      · exact hs.accounts
      · intro _
        exact hdone
      · intro hload
        exact absurd hload htold

theorem drainingStep (hs : Streamed s) (h : s.drainingStep a = some s') :
    Streamed s' :=
  hs.moved (Moved.of_draining h) nofun

theorem exitingStep (hs : Streamed s) (h : s.exitingStep a = some s') :
    Streamed s' :=
  hs.moved (Moved.of_exiting h) nofun

theorem running (hs : Streamed s) (hdone : s.done = false) :
    s.pc ≠ ConsumerPc.exited := by
  intro hexited
  rw [hs.ended (Or.inr hexited)] at hdone
  cases hdone

end Streamed

/-!
## Exits
-/

/-- When the loop has exited, every published item is accounted for. -/
def Complete (s : System Q) : Prop :=
  s.pc = ConsumerPc.exited -> forall i, i < s.published.length ->
    AccountedFor s.published s.answers i

/-- No item was published between `Empty` and the load that ends the loop. -/
def undisturbed (s : System Q) : Action T -> Bool
  | Action.loadDone => !s.done || s.published.length == s.emptyAt
  | _ => true

theorem complete_iff (hs : Streamed s) (hpc : s.pc = ConsumerPc.exited) :
    Complete s <-> Q.unread s.queue = [] := by
  rw [← hs.accounts.all_iff]
  exact Iff.intro (fun h => h hpc) (fun h _ => h)

theorem complete_of_not_exited (hpc : s.pc ≠ ConsumerPc.exited) :
    Complete s := by
  intro hexited
  exact absurd hexited hpc

/-- Only the load that finds `done` set can end a loop too early. -/
theorem complete_of_moved (hs : Streamed s) (h : Moved told s a s')
    (htold : told ≠ ConsumerPc.loadDone)
    (hset : a = Action.loadDone -> s.done = true ->
      told ≠ ConsumerPc.exited) : Complete s' := by
  have hstreamed := hs.moved h htold
  cases h with
  | published item q hdone hpublish =>
      exact complete_of_not_exited (hs.running hdone)
  | refused item hdone => exact complete_of_not_exited (hs.running hdone)
  | stored hdone => exact complete_of_not_exited (hs.running hdone)
  | answered jump answer q hpc hpoll hanswer =>
      apply complete_of_not_exited
      show s.pc ≠ ConsumerPc.exited
      rcases hpc with hpc | hpc
      · rw [hpc]
        nofun
      · rw [hpc]
        nofun
  | foundEmpty jump q next hpc hpoll =>
      intro hexited
      exact (complete_iff hstreamed hexited).mpr (Q.unread_poll hpoll).right
        hexited
  | unset hpc hdone => exact complete_of_not_exited nofun
  | foundSet hpc hdone => exact complete_of_not_exited (hset rfl hdone)

theorem complete_exitingStep_iff (hs : Streamed s)
    (h : s.exitingStep a = some s') :
    Complete s' <-> undisturbed s a = true := by
  have hmoved := Moved.of_exiting h
  have hstreamed := hs.exitingStep h
  by_cases hset : a = Action.loadDone ∧ s.done = true
  · rcases hset with ⟨rfl, hdone⟩
    cases hmoved with
    | unset hpc hunset =>
        rw [hdone] at hunset
        cases hunset
    | foundSet hpc _ =>
        have hsince := hs.sinceEmpty hpc
        apply (complete_iff hstreamed rfl).trans
        rw [← List.length_eq_zero_iff]
        simp only [undisturbed, hdone, Bool.not_true, Bool.false_or,
          beq_iff_eq]
        lia
  · constructor
    · intro _
      cases a with
      | publish item => rfl
      | storeDone => rfl
      | poll jump => rfl
      | loadDone =>
          cases hdone : s.done with
          | true => exact absurd ⟨rfl, hdone⟩ hset
          | false => simp [undisturbed, hdone]
    · intro _
      apply complete_of_moved hs hmoved nofun
      intro ha hdone
      exact absurd ⟨ha, hdone⟩ hset

/-!
## Whole runs
-/

theorem Streamed.reachable_draining
    (hs : (drainingMachine Q).Reachable s) : Streamed s :=
  hs.invariant (Streamed.start Q) (fun _ _ _ hs h => hs.drainingStep h)

theorem complete_of_draining (hreach : (drainingMachine Q).Reachable s) :
    Complete s := by
  apply hreach.invariant_of_reachable (P := Complete)
  · exact complete_of_not_exited nofun
  · intro s a s' hs _ h
    exact complete_of_moved (Streamed.reachable_draining hs)
      (Moved.of_draining h) nofun nofun

theorem complete_run_iff {actions : List (Action T)}
    (hrun : (exitingMachine Q).run actions = some s) :
    (forall first mid, first <+: actions ->
      (exitingMachine Q).run first = some mid -> Complete mid) <->
    ((exitingMachine Q).restrict undisturbed).run actions = some s :=
  Machine.always_iff_runFrom_restrict (I := Streamed)
    (fun _ _ _ hs h => hs.exitingStep h)
    (fun _ _ _ hs _ h => complete_exitingStep_iff hs h)
    (Streamed.start Q) (complete_of_not_exited nofun) hrun

/--
The handoff loops are complete in every run.  The two others are complete in
exactly those runs in which no item is published between the last `Empty` and
the load of `done` that ends the loop.
-/
theorem end_of_stream_iff (capacity : Nat) (T : Type u) :
    (forall s, (runSpscHandoff capacity T).Reachable s -> Complete s) ∧
    (forall s, (runSpmcHandoff T).Reachable s -> Complete s) ∧
    (forall actions s, (measure T).run actions = some s ->
      ((forall first mid, first <+: actions ->
        (measure T).run first = some mid -> Complete mid) <->
      ((measure T).restrict undisturbed).run actions = some s)) ∧
    (forall actions s, (runSpmcCapacitySweepOne T).run actions = some s ->
      ((forall first mid, first <+: actions ->
        (runSpmcCapacitySweepOne T).run first = some mid -> Complete mid) <->
      ((runSpmcCapacitySweepOne T).restrict undisturbed).run actions =
        some s)) := by
  refine ⟨?_, ?_, ?_, ?_⟩
  · intro s hreach
    exact complete_of_draining hreach
  · intro s hreach
    exact complete_of_draining hreach
  · intro actions s hrun
    exact complete_run_iff hrun
  · intro actions s hrun
    exact complete_run_iff hrun

/-- A run of `measure` with a lap, and an exit that misses nothing. -/
theorem end_of_stream_iff_lapped :
    exists s, (measure Nat).run
        [Action.publish 1, Action.publish 2, Action.publish 3,
          Action.poll (some 2), Action.poll none, Action.storeDone,
          Action.poll none, Action.loadDone] = some s ∧
      s.pc = ConsumerPc.exited ∧ Complete s := by
  apply Machine.exists_run_of_map (fun s => s.pc) ConsumerPc.exited rfl
  intro s hrun hpc
  constructor
  · exact hpc
  · apply ((end_of_stream_iff 1 Nat).right.right.left _ s hrun).mpr
    · rw [← hrun]
      rfl
    · exact List.prefix_refl _
    · exact hrun

/-- The last item is published between `Empty` and the load of `done`. -/
theorem last_item_lost :
    (exists s, (measure Nat).run
        [Action.poll none, Action.publish 7, Action.storeDone,
          Action.loadDone] = some s ∧
      s.pc = ConsumerPc.exited ∧ s.published = [7] ∧
      s.answers = [Polled.empty] ∧ ¬Complete s) ∧
    (exists s, (runSpmcCapacitySweepOne Nat).run
        [Action.poll none, Action.publish 7, Action.storeDone,
          Action.loadDone] = some s ∧
      s.pc = ConsumerPc.exited ∧ s.published = [7] ∧
      s.answers = [Polled.empty] ∧ ¬Complete s) := by
  have hlost : forall s : System (lapLog Nat), s.pc = ConsumerPc.exited ->
      s.published = [7] -> s.answers = [Polled.empty] -> ¬Complete s := by
    intro s hpc hpublished hanswers hcomplete
    have hzero := hcomplete hpc 0 (by rw [hpublished]; exact Nat.one_pos)
    have hlt := hzero.lt_covered
    rw [hanswers] at hlt
    exact Nat.lt_irrefl 0 hlt
  constructor
  · exact ⟨_, rfl, rfl, rfl, rfl, hlost _ rfl rfl rfl⟩
  · exact ⟨_, rfl, rfl, rfl, rfl, hlost _ rfl rfl rfl⟩

end System
end Bench
end LowLatency
