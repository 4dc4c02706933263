import Mathlib.Logic.Function.Basic

/-!
# Step machines

A program made of several parties is a machine whose actions are the single
steps of the parties.  An interleaving is a list of actions, so a property of
every interleaving is a property of every action list.
-/

namespace LowLatency
namespace Foundation

/-- A start state and a step function; `none` marks a disabled action. -/
structure Machine (State : Type _) (Action : Type _) where
  start : State
  step : State -> Action -> Option State

namespace Machine

variable {State Action : Type _}

/-!
## Runs
-/

def runFrom (M : Machine State Action) : State -> List Action -> Option State
  | s, [] => some s
  | s, a :: rest =>
      match M.step s a with
      | none => none
      | some s' => runFrom M s' rest

def run (M : Machine State Action) (actions : List Action) : Option State :=
  M.runFrom M.start actions

def Reachable (M : Machine State Action) (s : State) : Prop :=
  exists actions, M.run actions = some s

theorem runFrom_cons_of_step {M : Machine State Action} {s s' : State}
    {a : Action} (rest : List Action) (h : M.step s a = some s') :
    M.runFrom s (a :: rest) = M.runFrom s' rest := by
  simp only [runFrom, h]

theorem runFrom_append (M : Machine State Action) (s : State)
    (first second : List Action) :
    M.runFrom s (first ++ second) =
      (M.runFrom s first).bind (fun mid => M.runFrom mid second) := by
  induction first generalizing s with
  | nil => rfl
  | cons a rest ih =>
      cases hstep : M.step s a with
      | none => simp [runFrom, hstep]
      | some s' =>
          rw [List.cons_append, runFrom_cons_of_step _ hstep,
            runFrom_cons_of_step _ hstep]
          exact ih s'

theorem runFrom_trans {M : Machine State Action} {s mid s' : State}
    {first second : List Action} (hfirst : M.runFrom s first = some mid)
    (hsecond : M.runFrom mid second = some s') :
    M.runFrom s (first ++ second) = some s' := by
  rw [runFrom_append, hfirst]
  exact hsecond

theorem runFrom_cons_inv {M : Machine State Action} {s s' : State}
    {a : Action} {rest : List Action}
    (h : M.runFrom s (a :: rest) = some s') :
    exists mid, M.step s a = some mid ∧ M.runFrom mid rest = some s' := by
  cases hstep : M.step s a with
  | none => simp [runFrom, hstep] at h
  | some mid =>
      rw [runFrom_cons_of_step _ hstep] at h
      exact ⟨mid, rfl, h⟩

theorem reachable_start (M : Machine State Action) : M.Reachable M.start :=
  ⟨[], rfl⟩

theorem Reachable.runFrom {M : Machine State Action} {s s' : State}
    {actions : List Action} (hs : M.Reachable s)
    (h : M.runFrom s actions = some s') : M.Reachable s' := by
  rcases hs with ⟨before, hbefore⟩
  exact ⟨before ++ actions, runFrom_trans hbefore h⟩

theorem Reachable.step {M : Machine State Action} {s s' : State} {a : Action}
    (hs : M.Reachable s) (h : M.step s a = some s') : M.Reachable s' :=
  hs.runFrom (runFrom_cons_of_step [] h)

/-- A run whose outcome is known by evaluation, as far as `f` shows it. -/
theorem exists_run_of_map {Shown : Type _} {M : Machine State Action}
    {actions : List Action} {P : State -> Prop} (f : State -> Shown)
    (shown : Shown) (h : (M.run actions).map f = some shown)
    (hP : forall s, M.run actions = some s -> f s = shown -> P s) :
    exists s, M.run actions = some s ∧ P s := by
  rcases Option.map_eq_some_iff.mp h with ⟨s, hrun, hshown⟩
  exact ⟨s, hrun, hP s hrun hshown⟩

/-!
## Invariants

What holds at the start and is preserved by each step holds in every reachable
state.  The second rule follows a relation between the two ends of a run.
-/

/-- The invariant rule for runs of allowed actions. -/
theorem runFrom_invariant_of_allowed {M : Machine State Action}
    {P : State -> Prop} {Q : Action -> Prop}
    (hstep : forall s a s', P s -> Q a -> M.step s a = some s' -> P s')
    {s s' : State} {actions : List Action} (hs : P s)
    (hactions : forall a, a ∈ actions -> Q a)
    (h : M.runFrom s actions = some s') : P s' := by
  induction actions generalizing s with
  | nil =>
      cases h
      exact hs
  | cons a rest ih =>
      rcases runFrom_cons_inv h with ⟨mid, ha, hrest⟩
      have hfirst := hactions a List.mem_cons_self
      apply ih (hstep s a mid hs hfirst ha) ?_ hrest
      intro b hb
      exact hactions b (List.mem_cons_of_mem a hb)

theorem runFrom_invariant {M : Machine State Action} {P : State -> Prop}
    (hstep : forall s a s', P s -> M.step s a = some s' -> P s')
    {s s' : State} {actions : List Action} (hs : P s)
    (h : M.runFrom s actions = some s') : P s' :=
  runFrom_invariant_of_allowed (Q := fun _ => True)
    (fun s a s' hP _ => hstep s a s' hP) hs (fun _ _ => trivial) h

theorem Reachable.invariant {M : Machine State Action} {P : State -> Prop}
    (hstart : P M.start)
    (hstep : forall s a s', P s -> M.step s a = some s' -> P s')
    {s : State} (hs : M.Reachable s) : P s := by
  rcases hs with ⟨actions, hrun⟩
  exact runFrom_invariant hstep hstart hrun

/-- The invariant rule with reachability of the state before the step. -/
theorem Reachable.invariant_of_reachable {M : Machine State Action}
    {P : State -> Prop} (hstart : P M.start)
    (hstep : forall s a s', M.Reachable s -> P s ->
      M.step s a = some s' -> P s')
    {s : State} (hs : M.Reachable s) : P s := by
  have hboth : M.Reachable s ∧ P s := by
    apply hs.invariant (P := fun s => M.Reachable s ∧ P s)
      ⟨M.reachable_start, hstart⟩
    intro s a s' hboth h
    exact ⟨hboth.left.step h, hstep s a s' hboth.left hboth.right h⟩
  exact hboth.right

/-- The invariant rule for a property of the state and the actions so far. -/
theorem runFrom_invariant_of_actions {M : Machine State Action}
    {P : List Action -> State -> Prop}
    (hstep : forall before s a s', P before s -> M.step s a = some s' ->
      P (before ++ [a]) s')
    (before : List Action) {actions : List Action} {s s' : State}
    (hs : P before s) (h : M.runFrom s actions = some s') :
    P (before ++ actions) s' := by
  induction actions generalizing before s with
  | nil =>
      cases h
      rw [List.append_nil]
      exact hs
  | cons a rest ih =>
      rcases runFrom_cons_inv h with ⟨mid, ha, hrest⟩
      rw [List.append_cons]
      exact ih _ (hstep before s a mid hs ha) hrest

/-!
## Simulation
-/

/-- Each step of `M` is answered by a step of `N` that keeps the relation. -/
theorem Reachable.simulate {State' Action' : Type _} {M : Machine State Action}
    {N : Machine State' Action'} {R : State -> State' -> Prop}
    (hstart : R M.start N.start)
    (hstep : forall s a s' t, R s t -> M.step s a = some s' ->
      exists b t', N.step t b = some t' ∧ R s' t')
    {s : State} (hs : M.Reachable s) :
    exists t, N.Reachable t ∧ R s t := by
  apply hs.invariant (P := fun s => exists t, N.Reachable t ∧ R s t)
    ⟨N.start, N.reachable_start, hstart⟩
  intro s a s' ht h
  rcases ht with ⟨t, hreach, hrel⟩
  rcases hstep s a s' t hrel h with ⟨b, t', hb, hrel'⟩
  exact ⟨t', hreach.step hb, hrel'⟩

/--
A step of `M` may also be answered by no step of `N`.  The states are related
after runs of both machines.
-/
theorem Reachable.simulate_stutter {State' Action' : Type _}
    {M : Machine State Action} {N : Machine State' Action'}
    {R : State -> State' -> Prop} (hstart : R M.start N.start)
    (hstep : forall s a s' t, N.Reachable t -> R s t -> M.step s a = some s' ->
      R s' t ∨ exists b t', N.step t b = some t' ∧ R s' t')
    {s : State} (hs : M.Reachable s) :
    exists t, N.Reachable t ∧ R s t := by
  apply hs.invariant (P := fun s => exists t, N.Reachable t ∧ R s t)
    ⟨N.start, N.reachable_start, hstart⟩
  intro s a s' ht h
  rcases ht with ⟨t, hreach, hrel⟩
  rcases hstep s a s' t hreach hrel h with hrel' | ⟨b, t', hb, hrel'⟩
  · exact ⟨t, hreach, hrel'⟩
  · exact ⟨t', hreach.step hb, hrel'⟩

/-!
## Restricted machines

A restriction disables some actions, depending on the state.
-/

def restrict (M : Machine State Action) (allowed : State -> Action -> Bool) :
    Machine State Action where
  start := M.start
  step s a := if allowed s a then M.step s a else none

theorem restrict_step {M : Machine State Action}
    {allowed : State -> Action -> Bool} {s s' : State} {a : Action}
    (h : (M.restrict allowed).step s a = some s') :
    allowed s a = true ∧ M.step s a = some s' := by
  simp only [restrict] at h
  split at h
  · rename_i hallowed
    exact ⟨hallowed, h⟩
  · cases h

theorem Reachable.of_restrict {M : Machine State Action}
    {allowed : State -> Action -> Bool} {s : State}
    (hs : (M.restrict allowed).Reachable s) : M.Reachable s := by
  refine Reachable.invariant (M := M.restrict allowed) (P := M.Reachable)
    M.reachable_start ?_ hs
  intro s a s' hreach h
  exact hreach.step (restrict_step h).right

/--
A step keeps `P` exactly when it is allowed.  Then a run stays in `P` exactly
when the restricted machine has the same run.  `I` is an invariant of all runs.
-/
theorem always_iff_runFrom_restrict {M : Machine State Action}
    {I P : State -> Prop} {allowed : State -> Action -> Bool}
    (hI : forall s a s', I s -> M.step s a = some s' -> I s')
    (hP : forall s a s', I s -> P s -> M.step s a = some s' ->
      (P s' <-> allowed s a = true))
    {s s' : State} {actions : List Action} (hIs : I s) (hPs : P s)
    (h : M.runFrom s actions = some s') :
    (forall first mid, first <+: actions -> M.runFrom s first = some mid ->
      P mid) <->
    (M.restrict allowed).runFrom s actions = some s' := by
  induction actions generalizing s with
  | nil =>
      cases h
      constructor
      · intro _
        rfl
      · intro _ first mid hfirst hmid
        rw [List.prefix_nil.mp hfirst] at hmid
        cases hmid
        exact hPs
  | cons a rest ih =>
      rcases runFrom_cons_inv h with ⟨next, ha, hrest⟩
      have hnext := hP s a next hIs hPs ha
      cases hallowed : allowed s a with
      | false =>
          have hstuck : (M.restrict allowed).runFrom s (a :: rest) = none := by
            simp [runFrom, restrict, hallowed]
          rw [hstuck]
          constructor
          · intro hall
            have hbad := hnext.mp (hall [a] next (by simp)
              (runFrom_cons_of_step [] ha))
            rw [hallowed] at hbad
            cases hbad
          · intro hnone
            cases hnone
      | true =>
          have hstep : (M.restrict allowed).step s a = some next := by
            simp only [restrict, hallowed, if_true]
            exact ha
          rw [runFrom_cons_of_step rest hstep,
            ← ih (hI s a next hIs ha) (hnext.mpr hallowed) hrest]
          constructor
          · intro hall first mid hfirst hmid
            apply hall (a :: first) mid
            · exact (List.prefix_cons_inj a).mpr hfirst
            · rw [runFrom_cons_of_step first ha]
              exact hmid
          · intro hall first mid hfirst hmid
            rcases List.prefix_cons_iff.mp hfirst with rfl |
              ⟨front, rfl, hfront⟩
            · cases hmid
              exact hPs
            · rw [runFrom_cons_of_step front ha] at hmid
              exact hall front mid hfront hmid

end Machine

/-!
## Tables of parties
-/

section Tables

variable {Id Party Party' : Type _} [DecidableEq Id]

theorem new_or_old_of_update {f : Id -> Option Party} {i j : Id} {x y : Party}
    (h : Function.update f i (some x) j = some y) :
    (j = i ∧ y = x) ∨ f j = some y := by
  rcases eq_or_ne j i with rfl | hne
  · rw [Function.update_self] at h
    exact Or.inl ⟨rfl, (Option.some.inj h).symm⟩
  · rw [Function.update_of_ne hne] at h
    exact Or.inr h

theorem update_related {R : Party -> Party' -> Prop} {f : Id -> Party}
    {g : Id -> Party'} (h : forall j, R (f j) (g j)) (i : Id) {x : Party}
    {y : Party'} (hxy : R x y) (j : Id) :
    R (Function.update f i x j) (Function.update g i y j) := by
  rcases eq_or_ne j i with rfl | hne
  · rw [Function.update_self, Function.update_self]
    exact hxy
  · rw [Function.update_of_ne hne, Function.update_of_ne hne]
    exact h j

theorem update_map {p : Party -> Party'} {f : Id -> Option Party'}
    {g : Id -> Option Party} (h : forall j, f j = (g j).map p) (i : Id)
    (x : Party) (j : Id) :
    Function.update f i (some (p x)) j =
      (Function.update g i (some x) j).map p := by
  have hx : some (p x) = (some x).map p := rfl
  exact update_related (R := fun shown party => shown = Option.map p party)
    h i hx j

end Tables

/-!
## Histories
-/

theorem getElem?_append_of_eq_some {Event : Type _} {history : List Event}
    {i : Nat} {e : Event} (h : history[i]? = some e) (more : List Event) :
    (history ++ more)[i]? = some e := by
  rcases List.getElem?_eq_some_iff.mp h with ⟨hlt, _⟩
  exact (List.getElem?_append_left hlt).trans h

end Foundation
end LowLatency
