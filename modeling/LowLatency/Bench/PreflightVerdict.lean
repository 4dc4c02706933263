import LowLatency.Bench.Preflight

/-!
# What a preflight says about a machine

A check only adds to the report.  Its verdict says when it adds no failure and
when it adds no warning, and the verdict of a preflight is that of its checks.
On a machine whose files the kernel has written, a bench runs exactly when its
cores are fit for it.
-/

namespace LowLatency
namespace Bench

open Foundation
open Foundation.Text

/-- The check adds no failure if and only if `sound`, no warning if and only if `quiet`. -/
structure Verdict (check : PreflightReport -> PreflightReport)
    (sound quiet : Prop) : Prop where
  failures : forall r, r.failures <+: (check r).failures
  warnings : forall r, r.warnings <+: (check r).warnings
  sound : forall r, (check r).failures = r.failures <-> sound
  quiet : forall r, (check r).warnings = r.warnings <-> quiet

theorem prefix_eq_iff {α : Type _} {xs ys zs : List α}
    (hxy : xs <+: ys) (hyz : ys <+: zs) : zs = xs <-> ys = xs ∧ zs = ys := by
  constructor
  · intro heq
    have hback : ys <+: xs := heq ▸ hyz
    have hsame : ys = xs :=
      hback.eq_of_length_le hxy.length_le
    exact ⟨hsame, heq.trans hsame.symm⟩
  · rintro ⟨hy, hz⟩
    exact hz.trans hy

namespace Verdict

variable {f g : PreflightReport -> PreflightReport} {p p' q q' : Prop}

theorem nothing : Verdict (fun r => r) True True :=
  ⟨fun _ => List.prefix_rfl, fun _ => List.prefix_rfl,
    fun _ => ⟨fun _ => trivial, fun _ => rfl⟩,
    fun _ => ⟨fun _ => trivial, fun _ => rfl⟩⟩

theorem append_singleton_ne {α : Type _} (xs : List α) (x : α) :
    xs ++ [x] = xs <-> False := by
  rw [iff_false]
  intro heq
  have hlength := congrArg List.length heq
  rw [List.length_append] at hlength
  exact absurd hlength (Nat.succ_ne_self xs.length)

theorem fail (msg : String) : Verdict (fun r => r.fail msg) False True :=
  ⟨fun _ => List.prefix_append _ _, fun _ => List.prefix_rfl,
    fun r => append_singleton_ne r.failures msg,
    fun _ => ⟨fun _ => trivial, fun _ => rfl⟩⟩

theorem warn (msg : String) : Verdict (fun r => r.warn msg) True False :=
  ⟨fun _ => List.prefix_rfl, fun _ => List.prefix_append _ _,
    fun _ => ⟨fun _ => trivial, fun _ => rfl⟩,
    fun r => append_singleton_ne r.warnings msg⟩

theorem congr (h : Verdict f p q) (hp : p <-> p') (hq : q <-> q') :
    Verdict f p' q' :=
  ⟨h.failures, h.warnings, fun r => (h.sound r).trans hp,
    fun r => (h.quiet r).trans hq⟩

theorem andThen (hf : Verdict f p q) (hg : Verdict g p' q') :
    Verdict (fun r => g (f r)) (p ∧ p') (q ∧ q') := by
  constructor
  · intro r
    exact (hf.failures r).trans (hg.failures (f r))
  · intro r
    exact (hf.warnings r).trans (hg.warnings (f r))
  · intro r
    rw [prefix_eq_iff (hf.failures r) (hg.failures (f r)),
      hf.sound r, hg.sound (f r)]
  · intro r
    rw [prefix_eq_iff (hf.warnings r) (hg.warnings (f r)),
      hf.quiet r, hg.quiet (f r)]

theorem foldl {α : Type _} {step : PreflightReport -> α -> PreflightReport}
    {p q : α -> Prop} (xs : List α)
    (h : forall x, x ∈ xs -> Verdict (fun r => step r x) (p x) (q x)) :
    Verdict (fun r => xs.foldl step r) (forall x, x ∈ xs -> p x)
      (forall x, x ∈ xs -> q x) := by
  induction xs with
  | nil =>
      exact nothing.congr ⟨fun _ x hx => absurd hx List.not_mem_nil,
        fun _ => trivial⟩ ⟨fun _ x hx => absurd hx List.not_mem_nil,
        fun _ => trivial⟩
  | cons x xs ih =>
      have hrest := ih (fun y hy => h y (List.mem_cons_of_mem x hy))
      exact ((h x List.mem_cons_self).andThen hrest).congr
        List.forall_mem_cons.symm List.forall_mem_cons.symm

theorem foldl_fail {α : Type _} {step : PreflightReport -> α -> PreflightReport}
    {p : α -> Prop} (xs : List α)
    (h : forall x, Verdict (fun r => step r x) (p x) True) :
    Verdict (fun r => xs.foldl step r) (forall x, x ∈ xs -> p x) True :=
  (foldl xs (fun x _ => h x)).congr Iff.rfl (by simp only [implies_true])

theorem foldl_warn {α : Type _} {step : PreflightReport -> α -> PreflightReport}
    {q : α -> Prop} (xs : List α)
    (h : forall x, Verdict (fun r => step r x) True (q x)) :
    Verdict (fun r => xs.foldl step r) True (forall x, x ∈ xs -> q x) :=
  (foldl xs (fun x _ => h x)).congr (by simp only [implies_true]) Iff.rfl

theorem fail_unless {c : Prop} [Decidable c] (msg : String) (h : c <-> p) :
    Verdict (fun r => if c then r else r.fail msg) p True := by
  by_cases hc : c
  · simp only [if_pos hc]
    exact nothing.congr ⟨fun _ => h.mp hc, fun _ => trivial⟩ Iff.rfl
  · simp only [if_neg hc]
    exact (fail msg).congr ⟨False.elim, fun hp => hc (h.mpr hp)⟩ Iff.rfl

theorem warn_unless {c : Prop} [Decidable c] (msg : String) (h : c <-> p) :
    Verdict (fun r => if c then r else r.warn msg) True p := by
  by_cases hc : c
  · simp only [if_pos hc]
    exact nothing.congr Iff.rfl ⟨fun _ => h.mp hc, fun _ => trivial⟩
  · simp only [if_neg hc]
    exact (warn msg).congr Iff.rfl ⟨False.elim, fun hp => hc (h.mpr hp)⟩

theorem fail_when {c : Prop} [Decidable c] (msg : String) (h : ¬ c <-> p) :
    Verdict (fun r => if c then r.fail msg else r) p True := by
  have hunless := fail_unless msg h
  simp only [ite_not] at hunless
  exact hunless

theorem warn_when {c : Prop} [Decidable c] (msg : String) (h : ¬ c <-> p) :
    Verdict (fun r => if c then r.warn msg else r) True p := by
  have hunless := warn_unless msg h
  simp only [ite_not] at hunless
  exact hunless

/-!
## The end of a preflight
-/

theorem finish_panicked (r : PreflightReport) :
    r.finish.panicked = none <-> r.failures = [] := by
  unfold PreflightReport.finish
  cases hfailures : r.failures with
  | nil => exact ⟨fun _ => rfl, fun _ => rfl⟩
  | cons f rest => exact ⟨fun heq => (by cases heq), fun heq => (by cases heq)⟩

theorem finish_silent (r : PreflightReport) :
    r.finish = ⟨[], none⟩ <-> r.failures = [] ∧ r.warnings = [] := by
  unfold PreflightReport.finish
  cases hfailures : r.failures with
  | nil =>
      show (Finished.mk _ none = _) <-> _
      rw [Finished.mk.injEq, List.map_eq_nil_iff]
      exact ⟨fun heq => ⟨rfl, heq.left⟩, fun heq => ⟨heq.right, rfl⟩⟩
  | cons f rest =>
      refine ⟨fun heq => ?_, fun heq => (by cases heq.left)⟩
      have hpanic := congrArg Finished.panicked heq
      cases hpanic

theorem runs_iff (h : Verdict f p q) :
    (f PreflightReport.empty).finish.panicked = none <-> p := by
  rw [finish_panicked]
  exact h.sound PreflightReport.empty

theorem silent_iff (h : Verdict f p q) :
    (f PreflightReport.empty).finish = ⟨[], none⟩ <-> p ∧ q := by
  rw [finish_silent]
  exact and_congr (h.sound PreflightReport.empty) (h.quiet PreflightReport.empty)

end Verdict

theorem forall_mem_pairs {R : Nat -> Nat -> Prop} (cores : List Nat) :
    (forall x, x ∈ pairs cores -> R x.1 x.2) <-> cores.Pairwise R := by
  induction cores with
  | nil =>
      exact ⟨fun _ => List.Pairwise.nil, fun _ x hx => absurd hx List.not_mem_nil⟩
  | cons a rest ih =>
      rw [List.pairwise_cons, pairs, List.forall_mem_append, ih,
        List.forall_mem_map]

/-!
## The checks
-/

namespace Host

variable (host : Host) (cores : List Nat)

theorem releaseBuild_verdict :
    Verdict host.releaseBuild (host.debugAssertions = false) True := by
  unfold releaseBuild
  cases host.debugAssertions with
  | false => exact Verdict.nothing.congr (by decide) Iff.rfl
  | true => exact (Verdict.fail _).congr (by decide) Iff.rfl

theorem coresOnline_verdict :
    Verdict (fun r => host.coresOnline r cores)
      (forall c, c ∈ cores ->
        c ∈ host.readCpuList "/sys/devices/system/cpu/online") True :=
  Verdict.foldl_fail cores
    (fun _ => Verdict.fail_unless _ List.contains_iff_mem)

theorem coresIsolated_verdict :
    Verdict (fun r => host.coresIsolated r cores) True
      (forall c, c ∈ cores ->
        c ∈ host.readCpuList "/sys/devices/system/cpu/isolated") :=
  Verdict.foldl_warn cores
    (fun _ => Verdict.warn_unless _ List.contains_iff_mem)

theorem coresNohzFull_verdict :
    Verdict (fun r => host.coresNohzFull r cores) True
      (forall c, c ∈ cores ->
        c ∈ host.readCpuList "/sys/devices/system/cpu/nohz_full") :=
  Verdict.foldl_warn cores
    (fun _ => Verdict.warn_unless _ List.contains_iff_mem)

theorem coresPerformanceGovernor_verdict :
    Verdict (fun r => host.coresPerformanceGovernor r cores) True
      (forall c, c ∈ cores -> host.readTrim
        s!"/sys/devices/system/cpu/cpu{c}/cpufreq/scaling_governor" =
          some "performance".toList) := by
  have hcheck : forall c, Verdict (fun r => host.checkGovernor r c) True
      (host.readTrim
        s!"/sys/devices/system/cpu/cpu{c}/cpufreq/scaling_governor" =
          some "performance".toList) := by
    intro c
    unfold checkGovernor
    cases host.readTrim
        s!"/sys/devices/system/cpu/cpu{c}/cpufreq/scaling_governor" with
    | none =>
        exact (Verdict.warn _).congr Iff.rfl
          ⟨False.elim, fun heq => by cases heq⟩
    | some g =>
        rw [Option.some.injEq]
        exact Verdict.warn_unless _ Iff.rfl
  exact Verdict.foldl_warn cores hcheck

theorem turboDisabled_verdict :
    Verdict host.turboDisabled True
      (host.readTrim "/sys/devices/system/cpu/intel_pstate/no_turbo" =
          some "1".toList ∨
        (host.readTrim "/sys/devices/system/cpu/intel_pstate/no_turbo" = none ∧
          host.readTrim "/sys/devices/system/cpu/cpufreq/boost" =
            some "0".toList)) := by
  unfold turboDisabled
  cases host.readTrim "/sys/devices/system/cpu/intel_pstate/no_turbo" with
  | some s =>
      refine Verdict.warn_unless _ ?_
      constructor
      · intro heq
        exact Or.inl (congrArg some heq)
      · rintro (heq | ⟨hnone, _⟩)
        · exact Option.some.inj heq
        · cases hnone
  | none =>
      cases host.readTrim "/sys/devices/system/cpu/cpufreq/boost" with
      | some s =>
          refine Verdict.warn_unless _ ?_
          constructor
          · intro heq
            exact Or.inr ⟨rfl, congrArg some heq⟩
          · rintro (hsome | ⟨_, heq⟩)
            · cases hsome
            · exact Option.some.inj heq
      | none =>
          refine (Verdict.warn _).congr Iff.rfl ⟨False.elim, ?_⟩
          rintro (hsome | ⟨_, hsome⟩)
          · cases hsome
          · cases hsome

/-- Both cores have a core id, and the same one. -/
def SameCoreId (a b : Nat) : Prop :=
  exists id, host.coreId a = some id ∧ host.coreId b = some id

theorem coresDistinctPhysical_verdict :
    Verdict (fun r => host.coresDistinctPhysical r cores)
      (cores.Pairwise (fun a b => ¬ host.SameCoreId a b)) True := by
  have hcheck : forall p : Nat × Nat,
      Verdict (fun r => host.checkDistinct r p)
        (¬ host.SameCoreId p.1 p.2) True := by
    rintro ⟨a, b⟩
    refine Verdict.fail_when _ (not_congr ?_)
    rw [Bool.and_eq_true_iff, Option.isSome_iff_exists, beq_iff_eq]
    constructor
    · rintro ⟨⟨id, ha⟩, hsame⟩
      exact ⟨id, ha, hsame.symm.trans ha⟩
    · rintro ⟨id, ha, hb⟩
      exact ⟨⟨id, ha⟩, ha.trans hb.symm⟩
  exact (Verdict.foldl_fail (pairs cores) hcheck).congr
    (forall_mem_pairs (R := fun a b => ¬ host.SameCoreId a b) cores) Iff.rfl

theorem coresSmtSiblingsQuiet_verdict :
    Verdict (fun r => host.coresSmtSiblingsQuiet r cores) True
      (forall c, c ∈ cores -> forall sib, sib ∈ host.siblingsOf c ->
        host.readTrim s!"/sys/devices/system/cpu/cpu{sib}/online" ≠
            some "0".toList ->
          sib ∈ host.readCpuList "/sys/devices/system/cpu/isolated") := by
  have hcheck : forall c sib, Verdict
      (fun r => host.checkSibling
        (host.readCpuList "/sys/devices/system/cpu/isolated") c r sib) True
      (host.readTrim s!"/sys/devices/system/cpu/cpu{sib}/online" ≠
          some "0".toList ->
        sib ∈ host.readCpuList "/sys/devices/system/cpu/isolated") := by
    intro c sib
    refine Verdict.warn_when _ ?_
    rw [Bool.and_eq_true_iff, bne_iff_ne, Bool.not_eq_true',
      ← Bool.not_eq_true, List.contains_iff_mem, not_and, not_not]
  exact Verdict.foldl_warn cores
    (fun c => Verdict.foldl_warn (host.siblingsOf c) (hcheck c))

def SameL3 (a b : Nat) : Prop :=
  forall la lb, host.l3 a = some la -> host.l3 b = some lb -> la = lb

theorem coresShareL3_verdict :
    Verdict (fun r => host.coresShareL3 r cores) True
      (cores.Pairwise host.SameL3) := by
  have hcheck : forall p : Nat × Nat, Verdict (fun r => host.checkL3 r p) True
      (host.SameL3 p.1 p.2) := by
    rintro ⟨a, b⟩
    simp only [checkL3]
    split
    · rename_i la lb ha hb
      refine Verdict.warn_unless _ ⟨?_, fun hsame => hsame la lb ha hb⟩
      intro heq la' lb' ha' hb'
      rw [← Option.some.inj (ha.symm.trans ha'), heq]
      exact Option.some.inj (hb.symm.trans hb')
    · rename_i hneither
      refine Verdict.nothing.congr Iff.rfl ⟨fun _ la lb ha hb => ?_,
        fun _ => trivial⟩
      exact absurd hb (hneither la lb ha)
  exact (Verdict.foldl_warn (pairs cores) hcheck).congr Iff.rfl
    (forall_mem_pairs cores)

theorem tscInvariantAndNonstop_verdict :
    Verdict host.tscInvariantAndNonstop
      (forall cpuinfo, host.readToString "/proc/cpuinfo" = some cpuinfo ->
        forall flag, flag ∈ tscFlags -> flag.toList <:+: cpuinfo)
      ((host.readToString "/proc/cpuinfo").isSome = true) := by
  unfold tscInvariantAndNonstop
  cases host.readToString "/proc/cpuinfo" with
  | none =>
      exact (Verdict.warn _).congr
        ⟨fun _ _ heq => (by cases heq), fun _ => trivial⟩
        ⟨False.elim, fun heq => by cases heq⟩
  | some cpuinfo =>
      refine (Verdict.foldl tscFlags (fun _ _ =>
        Verdict.fail_unless _ Iff.rfl)).congr ?_
          ⟨fun _ => rfl, fun _ _ _ => trivial⟩
      constructor
      · intro hflags cpuinfo' heq
        rw [← Option.some.inj heq]
        exact hflags
      · intro hflags
        exact hflags cpuinfo rfl

end Host
end Bench
end LowLatency
