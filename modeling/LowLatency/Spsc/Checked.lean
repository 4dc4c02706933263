import LowLatency.Spsc.Counters

/-!
# The queue in a build with overflow checks

`push` and `pop` advance their counters with a plain `+= 1`, which panics at
the word boundary when overflow checks are on.  The panic comes after the
access to the slot and before the store of the counter.  A `push` then leaves
its item in the slot, where nobody finds it.  A `pop` destroys the item it has
read while it unwinds, and the head stays where it was.  `Queue::drop` uses
wrapping arithmetic only.
-/

namespace LowLatency
namespace Spsc

open Foundation
open Foundation.Linearizability

variable {W : Nat} {cap : Capacity W} {T : Type _}

/-- `self.cached_tail += 1` with overflow checks. -/
def Producer.advanceChecked (p : Producer W) : Option (Producer W) :=
  (Words.checkedAdd p.cachedTail 1#W).map
    (fun tail => { p with cachedTail := tail })

/-- `self.cached_head += 1` with overflow checks. -/
def Consumer.advanceChecked (c : Consumer W) : Option (Consumer W) :=
  (Words.checkedAdd c.cachedHead 1#W).map
    (fun head => { c with cachedHead := head })

/-- A call that panicked: the item left in the slot or taken out of it. -/
inductive Panic (T : Type _) where
  | push (item : T)
  | pop (item : Option T)
deriving DecidableEq, Repr

structure CheckedSystem {W : Nat} (cap : Capacity W) (T : Type _) where
  system : System cap T
  panics : List (Panic T)

namespace CheckedSystem

variable {c c' : CheckedSystem cap T}

/-!
## Steps

A caught panic ends its call; the handle can be used again.
-/

def pushStoreTail (c : CheckedSystem cap T) : Option (CheckedSystem cap T) :=
  match c.system.pushPc with
  | PushPc.storeTail item =>
      match c.system.producer.advanceChecked with
      | some _ => c.system.pushStoreTail.map (fun s => { c with system := s })
      | none =>
          some {
            system := { c.system with pushPc := PushPc.idle }
            panics := c.panics ++ [Panic.push item] }
  | _ => none

def popStoreHead (c : CheckedSystem cap T) : Option (CheckedSystem cap T) :=
  match c.system.popPc with
  | PopPc.storeHead item =>
      match c.system.consumer.advanceChecked with
      | some _ => c.system.popStoreHead.map (fun s => { c with system := s })
      | none =>
          some {
            system := { c.system with popPc := PopPc.idle }
            panics := c.panics ++ [Panic.pop item] }
  | _ => none

def step (c : CheckedSystem cap T) :
    Action T -> Option (CheckedSystem cap T)
  | Action.pushStoreTail => c.pushStoreTail
  | Action.popStoreHead => c.popStoreHead
  | a => (c.system.step a).map (fun s => { c with system := s })

end CheckedSystem

def checkedMachine {W : Nat} (cap : Capacity W) (T : Type _) :
    Machine (CheckedSystem cap T) (Action T) where
  start := ⟨System.new cap T, []⟩
  step := CheckedSystem.step

namespace CheckedSystem

variable {s s' : System cap T} {c c' : CheckedSystem cap T}

/-!
## What each step does

A step is the step of the wrapping queue, or it panics because the counter it
advances holds the greatest word.
-/

def overflows (s : System cap T) : Action T -> Bool
  | Action.pushStoreTail => s.producer.advanceChecked.isNone
  | Action.popStoreHead => s.consumer.advanceChecked.isNone
  | _ => false

theorem step_of_fits (panics : List (Panic T)) {a : Action T}
    (hfits : overflows s a = false) (h : s.step a = some s') :
    (checkedMachine cap T).step ⟨s, panics⟩ a = some ⟨s', panics⟩ := by
  cases a with
  | pushStoreTail =>
      rcases System.pushStoreTail_inv h with ⟨item, hpc, _⟩
      cases hnext : s.producer.advanceChecked with
      | none => simp [overflows, hnext] at hfits
      | some p =>
          simp only [checkedMachine, step, pushStoreTail, hpc, hnext]
          exact congrArg (Option.map _) h
  | popStoreHead =>
      rcases System.popStoreHead_inv h with ⟨item, hpc, _⟩
      cases hnext : s.consumer.advanceChecked with
      | none => simp [overflows, hnext] at hfits
      | some p =>
          simp only [checkedMachine, step, popStoreHead, hpc, hnext]
          exact congrArg (Option.map _) h
  | _ => exact congrArg (Option.map _) h

theorem push_panics (panics : List (Panic T)) {item : T}
    (hpc : s.pushPc = PushPc.storeTail item)
    (hover : overflows s Action.pushStoreTail = true) :
    (checkedMachine cap T).step ⟨s, panics⟩ Action.pushStoreTail =
      some ⟨{ s with pushPc := PushPc.idle }, panics ++ [Panic.push item]⟩ := by
  have hnext : s.producer.advanceChecked = none :=
    Option.isNone_iff_eq_none.mp hover
  simp only [checkedMachine, step, pushStoreTail, hpc, hnext]

theorem step_inv {a : Action T} (h : step c a = some c') :
    (overflows c.system a = false ∧ c.system.step a = some c'.system ∧
        c'.panics = c.panics) ∨
      (exists item, a = Action.pushStoreTail ∧
        c.system.pushPc = PushPc.storeTail item ∧
        c' = ⟨{ c.system with pushPc := PushPc.idle },
          c.panics ++ [Panic.push item]⟩) ∨
      (exists item, a = Action.popStoreHead ∧
        c.system.popPc = PopPc.storeHead item ∧
        overflows c.system Action.popStoreHead = true) := by
  cases a with
  | pushStoreTail =>
      simp only [step, pushStoreTail] at h
      split at h
      · rename_i item hpc
        cases hnext : c.system.producer.advanceChecked with
        | none =>
            rw [hnext] at h
            exact Or.inr (Or.inl ⟨item, rfl, hpc, (Option.some.inj h).symm⟩)
        | some p =>
            rw [hnext] at h
            rcases Option.map_eq_some_iff.mp h with ⟨s', hs', rfl⟩
            exact Or.inl ⟨by simp [overflows, hnext], hs', rfl⟩
      · cases h
  | popStoreHead =>
      simp only [step, popStoreHead] at h
      split at h
      · rename_i item hpc
        cases hnext : c.system.consumer.advanceChecked with
        | none =>
            exact Or.inr (Or.inr ⟨item, rfl, hpc, by simp [overflows, hnext]⟩)
        | some p =>
            rw [hnext] at h
            rcases Option.map_eq_some_iff.mp h with ⟨s', hs', rfl⟩
            exact Or.inl ⟨by simp [overflows, hnext], hs', rfl⟩
      · cases h
  | _ =>
      rcases Option.map_eq_some_iff.mp h with ⟨s', hs', rfl⟩
      exact Or.inl ⟨rfl, hs', rfl⟩

/-!
## The boundary

The word of the tail is the greatest one when the `2 ^ W`-th item is pushed.
The head never gets there: the last item that could take it there is the one
whose push panics.
-/

theorem push_fits (hc : System.Counters s)
    (hfew : s.log.accepted.length + 1 < 2 ^ W) :
    overflows s Action.pushStoreTail = false := by
  rw [overflows, Producer.advanceChecked, hc.producerTail,
    Words.checkedAdd_ofNat_one hfew]
  rfl

theorem push_overflows (hc : System.Counters s)
    (hlast : s.log.accepted.length + 1 = 2 ^ W) :
    overflows s Action.pushStoreTail = true := by
  rw [overflows, Producer.advanceChecked, hc.producerTail,
    Words.checkedAdd_last_one cap.width_pos hlast]
  rfl

theorem pop_fits (hc : System.Counters s)
    (hpc : s.popPc.pastCheck = true)
    (hfew : s.log.accepted.length < 2 ^ W) :
    overflows s Action.popStoreHead = false := by
  have hpop := hc.popItem hpc
  have hseen := hc.tailSeen_le
  rw [overflows, Consumer.advanceChecked, hc.consumerHead,
    Words.checkedAdd_ofNat_one (by lia)]
  rfl

/-- Only the store of `tail` accepts an item. -/
theorem accepted_step {a : Action T} (h : s.step a = some s') :
    s'.log.accepted = s.log.accepted ∨
      exists item, a = Action.pushStoreTail ∧
        s.pushPc = PushPc.storeTail item ∧
        s'.log.accepted = s.log.accepted ++ [item] := by
  cases a with
  | pushCall item =>
      rcases System.pushCall_inv h with ⟨_, _, rfl⟩
      exact Or.inl rfl
  | pushLoadHead i =>
      rcases System.pushLoadHead_inv h with
        ⟨_, _, _, _, ⟨_, rfl⟩ | ⟨_, rfl⟩⟩
      · exact Or.inl rfl
      · exact Or.inl rfl
  | pushWriteSlot =>
      rcases System.pushWriteSlot_inv h with ⟨_, _, rfl⟩
      exact Or.inl rfl
  | pushStoreTail =>
      rcases System.pushStoreTail_inv h with ⟨item, hpc, rfl⟩
      exact Or.inr ⟨item, rfl, hpc, rfl⟩
  | popCall =>
      rcases System.popCall_inv h with ⟨_, _, rfl⟩
      exact Or.inl rfl
  | popLoadTail i =>
      rcases System.popLoadTail_inv h with ⟨_, _, _, ⟨_, rfl⟩ | ⟨_, rfl⟩⟩
      · exact Or.inl rfl
      · exact Or.inl rfl
  | popReadSlot =>
      rcases System.popReadSlot_inv h with ⟨_, rfl⟩
      exact Or.inl rfl
  | popStoreHead =>
      rcases System.popStoreHead_inv h with ⟨_, _, rfl⟩
      exact Or.inl rfl
  | dropProducer =>
      rcases System.dropProducer_inv h with ⟨_, _, ⟨_, rfl⟩ | ⟨_, rfl⟩⟩
      · exact Or.inl rfl
      · exact Or.inl rfl
  | dropConsumer =>
      rcases System.dropConsumer_inv h with ⟨_, _, ⟨_, rfl⟩ | ⟨_, rfl⟩⟩
      · exact Or.inl rfl
      · exact Or.inl rfl

theorem fits_of_accepted_lt (hc : System.Counters s) {a : Action T}
    (h : s.step a = some s') (hfew : s'.log.accepted.length < 2 ^ W) :
    overflows s a = false := by
  cases a with
  | pushStoreTail =>
      rcases System.pushStoreTail_inv h with ⟨item, _, rfl⟩
      apply push_fits hc
      have hlength : (s.log.accepted ++ [item]).length < 2 ^ W := hfew
      simpa using hlength
  | popStoreHead =>
      rcases System.popStoreHead_inv h with ⟨item, hpc, rfl⟩
      exact pop_fits hc (by rw [hpc]; rfl) hfew
  | _ => rfl

/-!
## States of the checked queue
-/

structure Bounded (c : CheckedSystem cap T) : Prop where
  counters : System.Counters c.system
  accepted_lt : c.system.log.accepted.length < 2 ^ W
  pushes : forall p, p ∈ c.panics -> exists item, p = Panic.push item

namespace Bounded

theorem start (cap : Capacity W) (T : Type _) :
    Bounded (checkedMachine cap T).start where
  counters := System.Counters.new cap T
  accepted_lt := Nat.two_pow_pos W
  pushes := by
    intro p hp
    cases hp

theorem step (hb : Bounded c) {a : Action T} (h : step c a = some c') :
    Bounded c' := by
  rcases step_inv h with ⟨hfits, hstep, hpanics⟩ |
    ⟨item, rfl, hpc, rfl⟩ | ⟨item, rfl, hpc, hover⟩
  · constructor
    · exact hb.counters.step hstep
    · rcases accepted_step hstep with hsame | ⟨item, rfl, _, hmore⟩
      · rw [hsame]
        exact hb.accepted_lt
      · have hlt := hb.accepted_lt
        have hne : c.system.log.accepted.length + 1 ≠ 2 ^ W := by
          intro hlast
          rw [push_overflows hb.counters hlast] at hfits
          cases hfits
        rw [hmore, List.length_append, List.length_singleton]
        lia
    · rw [hpanics]
      exact hb.pushes
  · constructor
    · refine { hb.counters with pushRoom := ?_ }
      intro hidle
      cases hidle
    · exact hb.accepted_lt
    · intro p hp
      rcases List.mem_append.mp hp with hold | hnew
      · exact hb.pushes p hold
      · exact ⟨item, List.mem_singleton.mp hnew⟩
  · rw [pop_fits hb.counters (by rw [hpc]; rfl) hb.accepted_lt] at hover
    cases hover

theorem reachable (hs : (checkedMachine cap T).Reachable c) : Bounded c :=
  hs.invariant (start cap T) (fun _ _ _ hb h => hb.step h)

end Bounded

/-- No `pop` panics, at whatever boundary. -/
theorem pop_never_panics (hreach : (checkedMachine cap T).Reachable c) :
    forall item, Panic.pop item ∉ c.panics := by
  intro item hmem
  rcases (Bounded.reachable hreach).pushes _ hmem with ⟨_, hpush⟩
  cases hpush

/-!
## Whole runs
-/

/--
What the checked queue makes of the actions that took the wrapping queue to
`s`: the same state, or a `push` that panicked on the way.
-/
def Follows (actions : List (Action T)) (s : System cap T) : Prop :=
  (s.log.accepted.length < 2 ^ W ∧
    (checkedMachine cap T).run actions = some ⟨s, []⟩) ∨
  (2 ^ W ≤ s.log.accepted.length ∧
    exists first c item, first <+: actions ∧
      (checkedMachine cap T).run first = some c ∧
      c.panics = [Panic.push item])

theorem Follows.step {actions : List (Action T)} {a : Action T}
    (hf : Follows actions s) (hc : System.Counters s)
    (h : s.step a = some s') : Follows (actions ++ [a]) s' := by
  rcases hf with ⟨hlt, hrun⟩ | ⟨hge, first, c, item, hfirst, hrun, hpanics⟩
  · rcases Nat.lt_or_ge s'.log.accepted.length (2 ^ W) with hlt' | hge'
    · apply Or.inl
      constructor
      · exact hlt'
      · have hstep := step_of_fits [] (fits_of_accepted_lt hc h hlt') h
        exact Machine.runFrom_trans hrun
          (Machine.runFrom_cons_of_step [] hstep)
    · rcases accepted_step h with hsame | ⟨item, rfl, hpc, hmore⟩
      · rw [hsame] at hge'
        lia
      · apply Or.inr
        have hlast : s.log.accepted.length + 1 = 2 ^ W := by
          rw [hmore, List.length_append, List.length_singleton] at hge'
          lia
        have hstep := push_panics [] hpc
          (push_overflows hc hlast)
        refine ⟨hge', _, _, item, List.prefix_refl _,
          Machine.runFrom_trans hrun (Machine.runFrom_cons_of_step [] hstep),
          rfl⟩
  · apply Or.inr
    constructor
    · rcases accepted_step h with hsame | ⟨_, _, _, hmore⟩
      · rw [hsame]
        exact hge
      · rw [hmore, List.length_append]
        lia
    · exact ⟨first, c, item, hfirst.trans (List.prefix_append _ _), hrun,
        hpanics⟩

theorem follows {actions : List (Action T)}
    (hrun : (machine cap T).run actions = some s) : Follows actions s := by
  have hboth := Machine.runFrom_invariant_of_actions
    (P := fun before t => System.Counters t ∧ Follows before t)
    (by
      intro before t a t' ht hstep
      exact ⟨ht.left.step hstep, ht.right.step ht.left hstep⟩)
    [] ⟨System.Counters.new cap T, Or.inl ⟨Nat.two_pow_pos W, rfl⟩⟩ hrun
  exact hboth.right

theorem run_of_few {actions : List (Action T)}
    (hrun : (machine cap T).run actions = some s)
    (hlt : s.log.accepted.length < 2 ^ W) :
    (checkedMachine cap T).run actions = some ⟨s, []⟩ := by
  rcases follows hrun with ⟨_, hchecked⟩ | ⟨hge, _⟩
  · exact hchecked
  · lia

/--
The checked queue does what the wrapping queue does, without a panic, exactly
in the runs that accept fewer than `2 ^ W` items.  In every longer run a
`push` panics.
-/
theorem survives_boundary_iff {actions : List (Action T)}
    (hrun : (machine cap T).run actions = some s) :
    ((exists c, (checkedMachine cap T).run actions = some c ∧
        c.panics = [] ∧ c.system = s) <->
      s.log.accepted.length < 2 ^ W) ∧
    (2 ^ W ≤ s.log.accepted.length ->
      exists first c item, first <+: actions ∧
        (checkedMachine cap T).run first = some c ∧
        c.panics = [Panic.push item]) := by
  constructor
  · constructor
    · intro hsame
      rcases hsame with ⟨c, hchecked, _, rfl⟩
      exact (Bounded.reachable ⟨actions, hchecked⟩).accepted_lt
    · intro hlt
      exact ⟨⟨s, []⟩, run_of_few hrun hlt, rfl, rfl⟩
  · intro hge
    rcases follows hrun with ⟨hlt, _⟩ | ⟨_, hpanic⟩
    · lia
    · exact hpanic

/-- One item is handed over with one-bit counters. -/
def oneItem : List (Action Nat) :=
  [Action.pushCall 5, Action.pushWriteSlot, Action.pushStoreTail,
    Action.popCall, Action.popLoadTail 1, Action.popReadSlot,
    Action.popStoreHead]

/-- One-bit counters: the first item fits, the second is one too many. -/
theorem survives_boundary_iff_one_bit :
    (exists s, (machine (⟨1#1, 0, rfl⟩ : Capacity 1) Nat).run oneItem =
        some s ∧
      exists c, (checkedMachine (⟨1#1, 0, rfl⟩ : Capacity 1) Nat).run
          oneItem = some c ∧
        c.panics = [] ∧ c.system = s) ∧
    exists s, (machine (⟨1#1, 0, rfl⟩ : Capacity 1) Nat).run
        (oneItem ++ [Action.pushCall 6, Action.pushLoadHead 1,
          Action.pushWriteSlot, Action.pushStoreTail]) = some s ∧
      s.log.accepted.length = 2 ∧
      exists first c item, first <+:
          oneItem ++ [Action.pushCall 6, Action.pushLoadHead 1,
            Action.pushWriteSlot, Action.pushStoreTail] ∧
        (checkedMachine (⟨1#1, 0, rfl⟩ : Capacity 1) Nat).run first =
          some c ∧
        c.panics = [Panic.push item] := by
  constructor
  · apply Machine.exists_run_of_map (fun s => s.log.accepted.length) 1
      (by decide +kernel)
    intro s hrun hshown
    apply (survives_boundary_iff hrun).left.mpr
    rw [hshown]
    exact Nat.one_lt_two
  · apply Machine.exists_run_of_map (fun s => s.log.accepted.length) 2
      (by decide +kernel)
    intro s hrun hshown
    constructor
    · exact hshown
    · apply (survives_boundary_iff hrun).right
      rw [hshown]
      exact Nat.le_refl 2

end CheckedSystem
end Spsc
end LowLatency
