import LowLatency.Foundation.Machine
import Mathlib.Logic.Function.Iterate
import Mathlib.Tactic.Choose

/-!
# Progress

The own steps of one party use up a measure that the steps of the others leave
alone.  A party that is scheduled often enough therefore reaches its goal,
after a number of own steps that is known in advance, however its steps are
interleaved with those of the others.
-/

namespace LowLatency
namespace Foundation
namespace Machine

variable {State Action : Type _}

/-!
## Measures

The measure counts while `busy` holds.  The goal is kept once it is reached,
and only allowed actions are considered.
-/

structure Measure (M : Machine State Action) (allowed : Action -> Prop)
    (own : Action -> Bool) (busy goal : State -> Prop)
    (left : State -> Nat) : Prop where
  keeps : forall s a s', goal s -> M.step s a = some s' -> goal s'
  lowers : forall s a s', busy s -> allowed a -> own a = true ->
    M.step s a = some s' -> goal s' ∨ (busy s' ∧ left s' < left s)
  leaves : forall s a s', busy s -> allowed a -> own a = false ->
    M.step s a = some s' -> busy s' ∧ left s' ≤ left s

namespace Measure

variable {M : Machine State Action} {allowed : Action -> Prop}
variable {own : Action -> Bool} {busy goal : State -> Prop}
variable {left : State -> Nat}

theorem goal_runFrom (hm : Measure M allowed own busy goal left)
    {s s' : State} {actions : List Action} (hs : goal s)
    (h : M.runFrom s actions = some s') : goal s' :=
  runFrom_invariant hm.keeps hs h

/-- A run either reaches the goal or has paid for each own step. -/
theorem runFrom (hm : Measure M allowed own busy goal left) {s s' : State}
    {actions : List Action} (hs : busy s)
    (hallowed : forall a, a ∈ actions -> allowed a)
    (h : M.runFrom s actions = some s') :
    goal s' ∨ (busy s' ∧ actions.countP own + left s' ≤ left s) := by
  induction actions generalizing s with
  | nil =>
      cases h
      right
      constructor
      · exact hs
      · simp only [List.countP_nil, Nat.zero_add, Nat.le_refl]
  | cons a rest ih =>
      rcases runFrom_cons_inv h with ⟨mid, ha, hrest⟩
      have hfirst := hallowed a List.mem_cons_self
      have hothers : forall b, b ∈ rest -> allowed b := by
        intro b hb
        exact hallowed b (List.mem_cons_of_mem a hb)
      cases hown : own a with
      | true =>
          rcases hm.lowers s a mid hs hfirst hown ha with hgoal | ⟨hbusy, hless⟩
          · exact Or.inl (hm.goal_runFrom hgoal hrest)
          · rcases ih hbusy hothers hrest with hgoal | ⟨hlast, hcount⟩
            · exact Or.inl hgoal
            · right
              constructor
              · exact hlast
              · rw [List.countP_cons_of_pos hown]
                lia
      | false =>
          rcases hm.leaves s a mid hs hfirst hown ha with ⟨hbusy, hle⟩
          rcases ih hbusy hothers hrest with hgoal | ⟨hlast, hcount⟩
          · exact Or.inl hgoal
          · right
            constructor
            · exact hlast
            · rw [List.countP_cons_of_neg (by rw [hown]; exact Bool.noConfusion)]
              exact Nat.le_trans hcount hle

theorem goal_of_count (hm : Measure M allowed own busy goal left)
    {s s' : State} {actions : List Action} (hs : busy s)
    (hallowed : forall a, a ∈ actions -> allowed a)
    (h : M.runFrom s actions = some s')
    (henough : left s < actions.countP own) : goal s' := by
  rcases hm.runFrom hs hallowed h with hgoal | ⟨_, hcount⟩
  · exact hgoal
  · lia

end Measure

/-!
## Executions

An execution goes on for ever.
-/

structure Execution (M : Machine State Action) where
  state : Nat -> State
  action : Nat -> Action
  start : M.Reachable (state 0)
  step : forall n, M.step (state n) (action n) = some (state (n + 1))

namespace Execution

variable {M : Machine State Action}

def actionsFrom (E : Execution M) (n : Nat) : Nat -> List Action
  | 0 => []
  | k + 1 => E.action n :: E.actionsFrom (n + 1) k

theorem runFrom_actionsFrom (E : Execution M) (n k : Nat) :
    M.runFrom (E.state n) (E.actionsFrom n k) = some (E.state (n + k)) := by
  induction k generalizing n with
  | zero => rfl
  | succ k ih =>
      rw [actionsFrom, runFrom_cons_of_step _ (E.step n), ih (n + 1)]
      rw [show n + 1 + k = n + (k + 1) by lia]

theorem mem_actionsFrom (E : Execution M) {n k : Nat} {a : Action}
    (h : a ∈ E.actionsFrom n k) : exists t, n ≤ t ∧ E.action t = a := by
  induction k generalizing n with
  | zero => cases h
  | succ k ih =>
      rcases List.mem_cons.mp h with rfl | hrest
      · exact ⟨n, Nat.le_refl n, rfl⟩
      · rcases ih hrest with ⟨t, hle, ht⟩
        exact ⟨t, Nat.le_of_succ_le hle, ht⟩

theorem reachable (E : Execution M) (n : Nat) : M.Reachable (E.state n) := by
  have h := E.start.runFrom (E.runFrom_actionsFrom 0 n)
  rw [Nat.zero_add] at h
  exact h

theorem actionsFrom_add (E : Execution M) (n k l : Nat) :
    E.actionsFrom n (k + l) = E.actionsFrom n k ++ E.actionsFrom (n + k) l := by
  induction k generalizing n with
  | zero => rw [Nat.zero_add, Nat.add_zero, actionsFrom, List.nil_append]
  | succ k ih =>
      rw [show k + 1 + l = k + l + 1 by lia, actionsFrom, ih (n + 1),
        actionsFrom, List.cons_append, show n + 1 + k = n + (k + 1) by lia]

theorem exists_countP (E : Execution M) {own : Action -> Bool}
    (hagain : forall n, exists k, n ≤ k ∧ own (E.action k) = true)
    (n c : Nat) : exists k, c ≤ (E.actionsFrom n k).countP own := by
  induction c with
  | zero => exact ⟨0, Nat.zero_le _⟩
  | succ c ih =>
      rcases ih with ⟨k, hk⟩
      rcases hagain (n + k) with ⟨t, hle, ht⟩
      exists k + (t - (n + k)) + 1
      have hlast : E.actionsFrom (n + (k + (t - (n + k)))) 1 =
          [E.action t] := by
        rw [show n + (k + (t - (n + k))) = t by lia]
        rfl
      have hone : [E.action t].countP own = 1 := by
        rw [List.countP_cons_of_pos ht, List.countP_nil]
      rw [E.actionsFrom_add, hlast, E.actionsFrom_add, List.countP_append,
        List.countP_append, hone]
      lia

theorem exists_goal (E : Execution M) {allowed : Action -> Prop}
    {own : Action -> Bool} {busy goal : State -> Prop} {left : State -> Nat}
    (hm : Measure M allowed own busy goal left)
    (hagain : forall n, exists k, n ≤ k ∧ own (E.action k) = true)
    {n : Nat} (hbusy : busy (E.state n))
    (hallowed : forall k, n ≤ k -> allowed (E.action k)) :
    exists k, n ≤ k ∧ goal (E.state k) := by
  rcases E.exists_countP hagain n (left (E.state n) + 1) with ⟨k, hk⟩
  exists n + k
  constructor
  · exact Nat.le_add_right n k
  · apply hm.goal_of_count hbusy ?_ (E.runFrom_actionsFrom n k) hk
    intro a ha
    rcases E.mem_actionsFrom ha with ⟨t, hle, rfl⟩
    exact hallowed t hle

theorem exists_of_enabled {P : State -> Prop} {Q : Action -> Prop}
    (hnext : forall s, P s ->
      exists a s', Q a ∧ M.step s a = some s' ∧ P s')
    {s : State} (hreach : M.Reachable s) (hs : P s) :
    exists E : Execution M, E.state 0 = s ∧
      forall n, P (E.state n) ∧ Q (E.action n) := by
  choose act next hown hstep hkeep using hnext
  let advance : { t // P t } -> { t // P t } :=
    fun t => ⟨next t.val t.property, hkeep t.val t.property⟩
  let visited : Nat -> { t // P t } := fun n => advance^[n] ⟨s, hs⟩
  let E : Execution M :=
    { state := fun n => (visited n).val
      action := fun n => act (visited n).val (visited n).property
      start := hreach
      step := by
        intro n
        have hsucc : visited (n + 1) = advance (visited n) :=
          Function.iterate_succ_apply' advance n ⟨s, hs⟩
        rw [hsucc]
        exact hstep (visited n).val (visited n).property }
  exists E
  constructor
  · rfl
  · intro n
    exact ⟨(visited n).property, hown (visited n).val (visited n).property⟩

end Execution
end Machine
end Foundation
end LowLatency
