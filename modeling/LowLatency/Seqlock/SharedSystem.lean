import LowLatency.Foundation.Threads
import LowLatency.Seqlock.ViewReads

/-!
# Handles that are moved and that meet

The writer and the readers may be moved to other threads between two calls, and
their threads may synchronise by other means.  A clone of a reader starts as a
reader that has heard from its parent.  Nobody who has heard of a write reads an
older version afterwards.
-/

namespace LowLatency
namespace Seqlock

open Foundation

/-- A party is the writer, `none`, or a reader. -/
inductive SharedAction (Id : Type _) (m : Nat) (Word : Type) where
  | access (a : ViewAction Id m Word)
  | move (party : Option Id)
  | hear (party source : Option Id)

namespace ViewSystem

variable {Id : Type _} {m : Nat} {Word : Type}

def told (s : ViewSystem Id m Word) : Option Id -> Option (View (Location m))
  | none =>
      match s.writePc with
      | WritePc.idle => some s.writer.current
      | _ => none
  | some i =>
      match (s.readers i).pc with
      | ReadPc.idle => some (s.readers i).view.current
      | _ => none

variable [DecidableEq Id]

def between (s : ViewSystem Id m Word) (party : Option Id)
    (f : ThreadView (Location m) -> ThreadView (Location m)) :
    Option (ViewSystem Id m Word) :=
  match party with
  | none =>
      match s.writePc with
      | WritePc.idle => some { s with writer := f s.writer }
      | _ => none
  | some i =>
      let r := s.readers i
      match r.pc with
      | ReadPc.idle => some (s.setReader i { r with view := f r.view })
      | _ => none

def move (s : ViewSystem Id m Word) (party : Option Id) :
    Option (ViewSystem Id m Word) :=
  s.between party ThreadView.handOver

def hear (s : ViewSystem Id m Word) (party source : Option Id) :
    Option (ViewSystem Id m Word) :=
  (s.told source).bind (fun view =>
    s.between party (fun t => t.hear view))

def sharedStep (s : ViewSystem Id m Word) :
    SharedAction Id m Word -> Option (ViewSystem Id m Word)
  | SharedAction.access a => s.step a
  | SharedAction.move party => s.move party
  | SharedAction.hear party source => s.hear party source

end ViewSystem

def sharedMachine (Id : Type _) [DecidableEq Id] {m : Nat} {Word : Type}
    (initialValue : Payload m Word) :
    Machine (ViewSystem Id m Word) (SharedAction Id m Word) where
  start := ViewSystem.new Id initialValue
  step := ViewSystem.sharedStep

namespace ViewSystem

variable {Id : Type _} {m : Nat} {Word : Type}
variable {s s' : ViewSystem Id m Word}

/-!
## What each step does
-/

theorem told_inv {source : Option Id} {view : View (Location m)}
    (h : s.told source = some view) :
    (source = none ∧ s.writePc = WritePc.idle ∧ view = s.writer.current) ∨
    (exists j, source = some j ∧ (s.readers j).pc = ReadPc.idle ∧
      view = (s.readers j).view.current) := by
  cases source with
  | none =>
      simp only [told] at h
      split at h
      · rename_i hpc
        exact Or.inl ⟨rfl, hpc, (Option.some.inj h).symm⟩
      · cases h
  | some j =>
      simp only [told] at h
      split at h
      · rename_i hpc
        exact Or.inr ⟨j, rfl, hpc, (Option.some.inj h).symm⟩
      · cases h

variable [DecidableEq Id]

theorem between_inv {party : Option Id}
    {f : ThreadView (Location m) -> ThreadView (Location m)}
    (h : s.between party f = some s') :
    (party = none ∧ s.writePc = WritePc.idle ∧
      s' = { s with writer := f s.writer }) ∨
    (exists i, party = some i ∧ (s.readers i).pc = ReadPc.idle ∧
      s' = s.setReader i
        { s.readers i with view := f (s.readers i).view }) := by
  cases party with
  | none =>
      simp only [between] at h
      split at h
      · rename_i hpc
        exact Or.inl ⟨rfl, hpc, (Option.some.inj h).symm⟩
      · cases h
  | some i =>
      simp only [between] at h
      split at h
      · rename_i hpc
        exact Or.inr ⟨i, rfl, hpc, (Option.some.inj h).symm⟩
      · cases h

theorem sharedStep_inv {a : SharedAction Id m Word}
    (h : s.sharedStep a = some s') :
    (exists b, a = SharedAction.access b ∧ s.step b = some s') ∨
    (exists party f, s.between party f = some s' ∧
      forall t : ThreadView (Location m), t.current ≤ (f t).current) := by
  cases a with
  | access b => exact Or.inl ⟨b, rfl, h⟩
  | move party =>
      exact Or.inr ⟨party, ThreadView.handOver, h, fun _ => le_refl _⟩
  | hear party source =>
      rcases Option.bind_eq_some_iff.mp h with ⟨view, _, hbetween⟩
      exact Or.inr ⟨party, fun t => t.hear view, hbetween,
        fun t => t.current_le_hear view⟩

/-!
## Stores and reads
-/

theorem Stores.between (hs : Stores s) {party : Option Id}
    {f : ThreadView (Location m) -> ThreadView (Location m)}
    (hf : forall t, t.current ≤ (f t).current)
    (h : s.between party f = some s') : Stores s' := by
  rcases between_inv h with ⟨_, hpc, rfl⟩ | ⟨i, _, _, rfl⟩
  · refine ⟨hs.each, hs.count, ?_, ?_, hs.call, hs.length⟩
    · intro loc
      exact Nat.le_trans (hs.upToDate loc) (hf s.writer loc)
    · intro s₀ value written hwrite
      rw [hpc] at hwrite
      cases hwrite
  · exact ⟨hs.each, hs.count, hs.upToDate, hs.released, hs.call, hs.length⟩

theorem ReadersOk.between (hs : ReadersOk s) {party : Option Id}
    {f : ThreadView (Location m) -> ThreadView (Location m)}
    (hf : forall t, t.current ≤ (f t).current)
    (h : s.between party f = some s') : ReadersOk s' := by
  rcases between_inv h with ⟨_, _, rfl⟩ | ⟨i, _, hpc, rfl⟩
  · exists hs.reader
    intro hfew
    have hold := hs.returns hfew
    exact ⟨hold.value, hold.below, hold.ordered⟩
  · refine hs.setReader ⟨?_, ?_⟩ (Nat.le_refl _)
    · exact Nat.le_trans (hs.reader i).seqIndex
        (hf (s.readers i).view Location.seq)
    · dsimp only
      rw [hpc]
      exact trivial

theorem shared_reachable {initialValue : Payload m Word}
    (hs : (sharedMachine Id initialValue).Reachable s) :
    Stores s ∧ ReadersOk s := by
  apply hs.invariant (P := fun s => Stores s ∧ ReadersOk s)
    ⟨Stores.new Id initialValue, ReadersOk.new Id initialValue⟩
  rintro s a s' ⟨hstores, hreaders⟩ h
  rcases sharedStep_inv h with ⟨b, _, hstep⟩ | ⟨party, f, hbetween, hf⟩
  · exact ⟨hstores.step hstep, hreaders.step hstores hstep⟩
  · exact ⟨hstores.between hf hbetween, hreaders.between hf hbetween⟩

/-!
## What a reader cannot miss
-/

/-- The reader sees the store of `seq` at index `t`, also in the current call. -/
def Fresh (t : Nat) (r : ViewReader m Word) : Prop :=
  t ≤ r.view.current Location.seq ∧
    match r.pc with
    | ReadPc.readData _ _ => t ≤ r.seqIndex
    | ReadPc.reloadSeq _ _ => t ≤ r.seqIndex
    | _ => True

/-- A reader's own step keeps it fresh, and its return is of a fresh version. -/
theorem Fresh.read {t : Nat} {i : Id} {a : ViewReadAction m}
    (hfresh : Fresh t (s.readers i)) (h : s.read i a = some s') :
    Fresh t (s'.readers i) ∧ (s'.returns = s.returns ∨
      exists v, s'.returns = s.returns ++
        [⟨i, v, (s.readers i).seqIndex / 2⟩] ∧
          t ≤ (s.readers i).seqIndex) := by
  rcases hfresh with ⟨hview, hcall⟩
  cases a with
  | call =>
      rcases readCall_inv h with ⟨_, rfl⟩
      rw [setReader_self]
      exact ⟨⟨hview, trivial⟩, Or.inl rfl⟩
  | loadSeq k =>
      rcases readLoadSeq_inv h with ⟨msg, pc, out, hload, hgot, hs'⟩
      have hseen := (StoreHistory.load?_eq_some.mp hload).left
      have hacquire := (s.readers i).view.current_le_loadAcquire Location.seq k
        msg Location.seq
      have hrelaxed := (s.readers i).view.current_le_loadRelaxed Location.seq k
        msg Location.seq
      rcases hs' with ⟨rfl, rfl⟩ | ⟨v, rfl, rfl⟩
      · rw [setReader_self]
        refine ⟨?_, Or.inl rfl⟩
        rcases ReadPc.gotSeq_inv hgot with ⟨hpc, _, rfl, _⟩ |
          ⟨hpc, _, rfl, _⟩ | ⟨_, _, _, hnone⟩ | ⟨_, _, hpc, _, rfl, _⟩
        · rw [afterSeq, hpc]
          exact ⟨Nat.le_trans hview hacquire, trivial⟩
        · rw [afterSeq, hpc]
          exact ⟨Nat.le_trans hview hacquire, Nat.le_trans hview hseen⟩
        · cases hnone
        · rw [afterSeq, hpc]
          exact ⟨Nat.le_trans hview hrelaxed, trivial⟩
      · show Fresh t ((s.setReader i _).readers i) ∧ _
        rw [setReader_self]
        rcases ReadPc.gotSeq_inv hgot with ⟨_, _, _, hnone⟩ |
          ⟨_, _, _, hnone⟩ | ⟨_, hpc, rfl, _⟩ | ⟨_, _, _, _, _, hnone⟩
        · cases hnone
        · cases hnone
        · rw [hpc] at hcall
          rw [afterSeq, hpc]
          exact ⟨⟨Nat.le_trans hview hrelaxed, trivial⟩,
            Or.inr ⟨v, rfl, hcall⟩⟩
        · cases hnone
  | loadWord w u =>
      rcases readLoadWord_inv h with ⟨msg, pc, _, hgot, rfl⟩
      rcases ReadPc.gotWord_inv hgot with ⟨s1, copied, hpc, _, rfl⟩
      rw [hpc] at hcall
      rw [setReader_self]
      exact ⟨⟨Nat.le_trans hview ((s.readers i).view.current_le_loadRelaxed
        (Location.word w) u msg Location.seq), hcall⟩, Or.inl rfl⟩
  | fence =>
      rcases readFence_inv h with ⟨pc, hfence, rfl⟩
      rcases ReadPc.fence_inv hfence with ⟨s1, copied, v, hpc, _, rfl⟩
      rw [hpc] at hcall
      rw [setReader_self]
      exact ⟨⟨Nat.le_trans hview ((s.readers i).view.current_le_fenceAcquire
        Location.seq), hcall⟩, Or.inl rfl⟩

structure FreshSince (t n : Nat) (i : Id) (s : ViewSystem Id m Word) : Prop where
  reader : Fresh t (s.readers i)
  length : n ≤ s.returns.length
  returns : forall e, e ∈ s.returns.drop n -> e.reader = i ->
    t ≤ 2 * e.version + 1

namespace FreshSince

variable {t n : Nat} {i : Id}

omit [DecidableEq Id] in
theorem returned (hs : FreshSince t n i s) (hreader : Fresh t (s'.readers i))
    {e : ViewRecord Id m Word} (hreturns : s'.returns = s.returns ++ [e])
    (he : e.reader = i -> t ≤ 2 * e.version + 1) : FreshSince t n i s' := by
  refine ⟨hreader, ?_, ?_⟩
  · rw [hreturns, List.length_append]
    exact Nat.le_add_right_of_le hs.length
  · intro e' he'
    rw [hreturns, List.drop_append_of_le_length hs.length] at he'
    rcases List.mem_append.mp he' with hold | hnew
    · exact hs.returns e' hold
    · rw [List.mem_singleton.mp hnew]
      exact he

omit [DecidableEq Id] in
theorem of_returns (hs : FreshSince t n i s)
    (hreader : Fresh t (s'.readers i)) (hreturns : s'.returns = s.returns) :
    FreshSince t n i s' := by
  refine ⟨hreader, ?_, ?_⟩
  · rw [hreturns]
    exact hs.length
  · rw [hreturns]
    exact hs.returns

theorem read (hs : FreshSince t n i s) {j : Id} {a : ViewReadAction m}
    (h : s.read j a = some s') : FreshSince t n i s' := by
  rcases eq_or_ne i j with rfl | hne
  · rcases hs.reader.read h with ⟨hreader, hreturns | ⟨v, hreturns, hle⟩⟩
    · exact hs.of_returns hreader hreturns
    · refine hs.returned hreader hreturns (fun _ => ?_)
      dsimp only
      lia
  · have hother : s'.readers i = s.readers i := by
      rcases read_eq h with ⟨r, returns, rfl⟩
      exact setReader_of_ne s hne r
    have hreader : Fresh t (s'.readers i) := by
      rw [hother]
      exact hs.reader
    cases a with
    | call =>
        rcases readCall_inv h with ⟨_, rfl⟩
        exact hs.of_returns hreader rfl
    | loadSeq k =>
        rcases readLoadSeq_inv h with ⟨_, _, _, _, _, ⟨_, rfl⟩ | ⟨_, _, rfl⟩⟩
        · exact hs.of_returns hreader rfl
        · exact hs.returned hreader rfl (fun heq => absurd heq.symm hne)
    | loadWord w u =>
        rcases readLoadWord_inv h with ⟨_, _, _, _, rfl⟩
        exact hs.of_returns hreader rfl
    | fence =>
        rcases readFence_inv h with ⟨_, _, rfl⟩
        exact hs.of_returns hreader rfl

theorem between (hs : FreshSince t n i s) {party : Option Id}
    {f : ThreadView (Location m) -> ThreadView (Location m)}
    (hf : forall t, t.current ≤ (f t).current)
    (h : s.between party f = some s') : FreshSince t n i s' := by
  rcases between_inv h with ⟨_, _, rfl⟩ | ⟨j, _, hpc, rfl⟩
  · exact hs.of_returns hs.reader rfl
  · refine hs.of_returns ?_ rfl
    rcases eq_or_ne i j with rfl | hne
    · rw [setReader_self]
      refine ⟨Nat.le_trans hs.reader.left (hf _ Location.seq), ?_⟩
      dsimp only
      rw [hpc]
      exact trivial
    · rw [setReader_of_ne s hne]
      exact hs.reader

theorem step (hs : FreshSince t n i s) {a : SharedAction Id m Word}
    (h : s.sharedStep a = some s') : FreshSince t n i s' := by
  rcases sharedStep_inv h with ⟨b, _, hstep⟩ | ⟨party, f, hbetween, hf⟩
  · by_cases hread : exists j c, b = ViewAction.read j c
    · rcases hread with ⟨j, c, rfl⟩
      exact hs.read hstep
    · have hwriter : forall j c, b ≠ ViewAction.read j c :=
        fun j c heq => hread ⟨j, c, heq⟩
      have ha := step_advances hstep
      refine hs.of_returns ?_ (ha.returns hwriter)
      rw [ha.readers hwriter]
      exact hs.reader
  · exact hs.between hf hbetween

end FreshSince

/-- The versions that a party has behind it: written, or returned to it. -/
def behind (s : ViewSystem Id m Word) (source : Option Id) (u : Nat) : Prop :=
  match source with
  | none => u ≤ s.completed
  | some j => exists e, e ∈ s.returns ∧ e.reader = j ∧ u = e.version

theorem versions_le_runFrom {initialValue : Payload m Word}
    {actions : List (SharedAction Id m Word)}
    (hrun : (sharedMachine Id initialValue).runFrom s actions = some s') :
    s.versions.length ≤ s'.versions.length := by
  apply Machine.runFrom_invariant (M := sharedMachine Id initialValue)
    (P := fun t => s.versions.length ≤ t.versions.length) ?_ (Nat.le_refl _)
    hrun
  intro t a t' ht h
  apply Nat.le_trans ht
  rcases sharedStep_inv h with ⟨b, _, hstep⟩ | ⟨party, f, hbetween, _⟩
  · rw [(step_advances hstep).versions, List.length_append]
    exact Nat.le_add_right _ _
  · rcases between_inv hbetween with ⟨_, _, rfl⟩ | ⟨_, _, _, rfl⟩
    · exact Nat.le_refl _
    · exact Nat.le_refl _

theorem freshSince_of_hear {i : Id} {source : Option Id} {t : Nat}
    (ht : forall view, s.told source = some view -> t ≤ view Location.seq)
    (h : s.hear (some i) source = some s') :
    FreshSince t s.returns.length i s' := by
  rcases Option.bind_eq_some_iff.mp h with ⟨view, htold, hbetween⟩
  rcases between_inv hbetween with ⟨hnone, _, _⟩ | ⟨j, hj, hpc, rfl⟩
  · cases hnone
  · cases hj
    refine ⟨⟨?_, ?_⟩, Nat.le_refl _, ?_⟩
    · rw [setReader_self]
      exact Nat.le_trans (ht view htold) (Nat.le_max_right _ _)
    · rw [setReader_self]
      dsimp only
      rw [hpc]
      exact trivial
    · intro e he
      change e ∈ s.returns.drop s.returns.length at he
      rw [List.drop_length] at he
      cases he

/-- Whoever hears from a party is bound to see what that party has behind it. -/
theorem behind_le_told {initialValue : Payload m Word}
    (hs : (sharedMachine Id initialValue).Reachable s)
    (hfew : s.versions.length ≤ 2 ^ 63) {source : Option Id}
    {view : View (Location m)} (h : s.told source = some view) {u : Nat}
    (hu : s.behind source u) : 2 * u ≤ view Location.seq := by
  rcases shared_reachable hs with ⟨hstores, hreaders⟩
  rcases told_inv h with ⟨rfl, hpc, rfl⟩ | ⟨j, rfl, _, rfl⟩
  · have hle : u ≤ s.completed := hu
    have hseq := hstores.upToDate Location.seq
    rw [hstores.count, hpc] at hseq
    exact Nat.le_trans (Nat.mul_le_mul_left 2 hle) hseq
  · rcases hu with ⟨e, he, rfl, rfl⟩
    exact Nat.le_trans ((hreaders.returns hfew).below e he)
      (hreaders.reader e.reader).seqIndex

/--
Causal consistency.  Each read returns the whole payload of one version, a reader
never returns an older version than before, and once it has heard from the writer
or from another reader, none older than what that party has written or returned.
-/
theorem reads_causally_consistent {initialValue : Payload m Word}
    (hs : (sharedMachine Id initialValue).Reachable s) {i : Id}
    {source : Option Id} {s₁ s₂ : ViewSystem Id m Word}
    {actions : List (SharedAction Id m Word)}
    (hhear : s.hear (some i) source = some s₁)
    (hrun : (sharedMachine Id initialValue).runFrom s₁ actions = some s₂)
    (hfew : s₂.versions.length ≤ 2 ^ 63) :
    (forall e, e ∈ s₂.returns -> s₂.versions[e.version]? = some e.value) ∧
    s₂.returns.Pairwise
      (fun e₁ e₂ => e₁.reader = e₂.reader -> e₁.version ≤ e₂.version) ∧
    (forall e, e ∈ s₂.returns.drop s.returns.length -> e.reader = i ->
      forall u, s.behind source u -> u ≤ e.version) := by
  have hreach₁ : (sharedMachine Id initialValue).Reachable s₁ :=
    hs.step (a := SharedAction.hear (some i) source) hhear
  have hok := (shared_reachable (hreach₁.runFrom hrun)).right.returns hfew
  refine ⟨hok.value, hok.ordered, ?_⟩
  intro e he hreader u hu
  have hwhole : (sharedMachine Id initialValue).runFrom s
      (SharedAction.hear (some i) source :: actions) = some s₂ :=
    (Machine.runFrom_cons_of_step actions hhear).trans hrun
  have hfew₁ := Nat.le_trans (versions_le_runFrom hwhole) hfew
  have hfresh := freshSince_of_hear
    (fun _ htold => behind_le_told hs hfew₁ htold hu) hhear
  have hlast := Machine.runFrom_invariant
    (M := sharedMachine Id initialValue) (fun _ _ _ hf h => hf.step h) hfresh
    hrun
  have hle := hlast.returns e he hreader
  lia

/-- The second reader hears from the first one and cannot miss its version. -/
theorem reads_causally_consistent_told :
    exists s, (sharedMachine Bool (fun _ : Fin 1 => (0 : Nat))).run
        ([SharedAction.move none,
            SharedAction.access (ViewAction.writeCall (fun _ => 7) 0),
            SharedAction.access ViewAction.writeStoreOdd,
            SharedAction.access ViewAction.writeFence,
            SharedAction.access (ViewAction.writeWord 0),
            SharedAction.access ViewAction.writeStoreEven,
            SharedAction.move (some true)] ++
          [ViewReadAction.call, ViewReadAction.loadSeq 2,
            ViewReadAction.loadWord 0 1, ViewReadAction.fence,
            ViewReadAction.loadSeq 2].map
              (fun a => SharedAction.access (ViewAction.read true a))) =
          some s ∧
      exists s₁, s.hear (some false) (some true) = some s₁ ∧
      exists s₂, (sharedMachine Bool (fun _ : Fin 1 => (0 : Nat))).runFrom s₁
        ([ViewReadAction.call, ViewReadAction.loadSeq 2,
            ViewReadAction.loadWord 0 1, ViewReadAction.fence,
            ViewReadAction.loadSeq 2].map
              (fun a => SharedAction.access (ViewAction.read false a))) =
          some s₂ ∧
        s₂.returns.map (fun e => (e.reader, e.value 0, e.version)) =
          [(true, 7, 1), (false, 7, 1)] ∧
        forall e, e ∈ s₂.returns.drop s.returns.length -> e.reader = false ->
          1 ≤ e.version := by
  apply Machine.exists_run_of_map
    (fun s => (s.hear (some false) (some true)).bind (fun s₁ =>
      ((sharedMachine Bool (fun _ : Fin 1 => (0 : Nat))).runFrom s₁
        ([ViewReadAction.call, ViewReadAction.loadSeq 2,
            ViewReadAction.loadWord 0 1, ViewReadAction.fence,
            ViewReadAction.loadSeq 2].map
              (fun a => SharedAction.access (ViewAction.read false a)))).map
        (fun s₂ => (s.returns.any (fun e => e.reader && e.version == 1) &&
            s₂.versions.length == 2,
          s₂.returns.map (fun e => (e.reader, e.value 0, e.version))))))
    (some (true, [(true, 7, 1), (false, 7, 1)])) (by decide +kernel)
  intro s hrun hshown
  rcases Option.bind_eq_some_iff.mp hshown with ⟨s₁, hhear, hshown⟩
  rcases Option.map_eq_some_iff.mp hshown with ⟨s₂, hrun₂, hfields⟩
  simp only [Prod.mk.injEq] at hfields
  rcases hfields with ⟨hboth, hreturns⟩
  rcases Bool.and_eq_true_iff.mp hboth with ⟨hfirst, hlength⟩
  have hbehind : s.behind (some true) 1 := by
    rcases List.any_eq_true.mp hfirst with ⟨e, he, hpair⟩
    rcases Bool.and_eq_true_iff.mp hpair with ⟨hreader, hversion⟩
    exact ⟨e, he, hreader, (beq_iff_eq.mp hversion).symm⟩
  have hfew : s₂.versions.length ≤ 2 ^ 63 := by
    rw [beq_iff_eq.mp hlength]
    decide
  refine ⟨s₁, hhear, s₂, hrun₂, hreturns, ?_⟩
  intro e he hreader
  exact (reads_causally_consistent ⟨_, hrun⟩ hhear hrun₂ hfew).right.right e he
    hreader 1 hbehind

end ViewSystem
end Seqlock
end LowLatency
