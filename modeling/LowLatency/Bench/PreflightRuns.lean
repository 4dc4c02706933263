import LowLatency.Bench.Topology

/-!
# Preflights

A preflight lets a bench run on exactly the cores that are fit for it, as far as
the kernel tells, and it is silent on exactly the machines that are ideal.
-/

namespace LowLatency
namespace Bench

open Foundation
open Foundation.Text

namespace Host

variable {host : Host} {t : Topology}

/-!
## Two machines
-/

def fourCpus : List Nat :=
  [0, 1, 2, 3]

def steadyCpu : List (Text × Text) × List Text :=
  (["fpu", "constant_tsc", "nonstop_tsc"].map
      (fun flag => (" ".toList, flag.toList)),
    ["bogomips\t: 4890.86".toList])

def cpuinfo : Text :=
  unlines (["processor\t: 0".toList] ++ [steadyCpu].flatMap cpuBlock)

/-- Two cores are kept free for benches. -/
def quietTopology : Topology where
  online := fourCpus
  isolated := [2, 3]
  nohzFull := [2, 3]
  threadSiblings := fun c => [c]
  coreId := fun c => some (Int.ofNat c)
  governor := fun _ => some "performance".toList
  noTurbo := some true
  boost := none
  sharedL3 := fun _ => some fourCpus
  cpuFlags := some [steadyCpu.1.map Prod.snd]
  hugepagesFree := some 64

def quietFiles : List (String × Text) :=
  [("/sys/devices/system/cpu/online", line "0-3".toList),
    ("/sys/devices/system/cpu/isolated", line "2-3".toList),
    ("/sys/devices/system/cpu/nohz_full", line "2-3".toList),
    ("/sys/devices/system/cpu/intel_pstate/no_turbo", line "1".toList),
    ("/proc/cpuinfo", cpuinfo),
    ("/proc/meminfo", unlines ["MemFree: 1 kB".toList,
      "HugePages_Free:      64".toList])] ++
  fourCpus.flatMap (fun c =>
    [(s!"/sys/devices/system/cpu/cpu{c}/topology/thread_siblings_list",
        line (decimal c)),
      (s!"/sys/devices/system/cpu/cpu{c}/topology/core_id", line (decimal c)),
      (s!"/sys/devices/system/cpu/cpu{c}/cpufreq/scaling_governor",
        line "performance".toList),
      (s!"/sys/devices/system/cpu/cpu{c}/cache/index3/shared_cpu_list",
        line "0-3".toList)])

def quietHost : Host where
  usizeBits := 64
  debugAssertions := false
  readToString := fun path => quietFiles.lookup path

/-- Two cores of two threads each, on a kernel that tells little. -/
def plainTopology : Topology where
  online := fourCpus
  isolated := []
  nohzFull := []
  threadSiblings := fun c => if c < 2 then [0, 1] else [2, 3]
  coreId := fun c => some (Int.ofNat (c / 2))
  governor := fun _ => none
  noTurbo := none
  boost := none
  sharedL3 := fun _ => none
  cpuFlags := some [steadyCpu.1.map Prod.snd]
  hugepagesFree := none

def plainFiles : List (String × Text) :=
  [("/sys/devices/system/cpu/online", line "0-3".toList),
    ("/sys/devices/system/cpu/isolated", line []),
    ("/sys/devices/system/cpu/nohz_full", line "(null)".toList),
    ("/proc/cpuinfo", cpuinfo)] ++
  fourCpus.flatMap (fun c =>
    [(s!"/sys/devices/system/cpu/cpu{c}/topology/thread_siblings_list",
        line (cpuList (if c < 2 then [0, 1] else [2, 3]))),
      (s!"/sys/devices/system/cpu/cpu{c}/topology/core_id",
        line (decimal (c / 2)))])

def plainHost : Host where
  usizeBits := 64
  debugAssertions := false
  readToString := fun path => plainFiles.lookup path

theorem noSpace_performance : NoSpace "performance".toList :=
  noSpace_of_all (by decide +kernel)

theorem steadyCpu_flags {host : Host}
    (h : host.readToString "/proc/cpuinfo" = some cpuinfo) :
    host.ShowsFlags (some [steadyCpu.1.map Prod.snd]) := by
  have hcolumns : forall w, w ∈ steadyCpu.1 -> IsColumn w := by
    have hall : forall w, w ∈ steadyCpu.1 -> (w.1 ≠ [] ∧
        w.1.all isWhitespace = true) ∧ (w.2 ≠ [] ∧
        w.2.all (fun c => !isWhitespace c) = true) := by
      decide +kernel
    intro w hw
    rcases hall w hw with ⟨⟨hgap, hspace⟩, hword, hnospace⟩
    exact ⟨⟨hgap, isGap_of_all hspace⟩, hword, noSpace_of_all hnospace⟩
  refine ⟨["processor\t: 0".toList], [steadyCpu], rfl, ?_, by decide +kernel, h⟩
  intro cpu hcpu
  rw [List.mem_singleton.mp hcpu]
  exact hcolumns

theorem quietHost_describes : quietHost.Describes quietTopology where
  online := Or.inl ⟨by decide +kernel, by decide +kernel⟩
  isolated := Or.inl ⟨by decide +kernel, by decide +kernel⟩
  nohzFull := Or.inl ⟨by decide +kernel, by decide +kernel⟩
  siblings := by
    have hlists : forall c, c ∈ fourCpus -> quietHost.ListsCpus
        s!"/sys/devices/system/cpu/cpu{c}/topology/thread_siblings_list"
          [c] := by
      unfold ListsCpus
      decide +kernel
    exact fun c hc => Or.inl (hlists c hc)
  siblingOnline := by decide +kernel
  siblingOffline := by decide +kernel
  coreId := by decide +kernel
  governor := by decide +kernel
  governorWord := by
    intro c _ g hg
    rw [← Option.some.inj hg]
    exact noSpace_performance
  noTurbo := by
    unfold ShowsFlag
    decide +kernel
  boost := by
    unfold ShowsFlag
    decide +kernel
  sharedL3 := by
    show forall c, c ∈ fourCpus -> ListsCpus _ _ fourCpus
    unfold ListsCpus
    decide +kernel
  cpuFlags := steadyCpu_flags (by decide +kernel)

theorem quietTopology_fit : quietTopology.Fit [2, 3] where
  online := by decide
  tsc := by
    have hflags : forall flag, flag ∈ tscFlags -> exists word,
        word ∈ steadyCpu.1.map Prod.snd ∧ flag.toList <:+: word := by
      decide +kernel
    exact Or.inr (fun flag hflag =>
      ⟨_, rfl, _, List.mem_singleton.mpr rfl, hflags flag hflag⟩)

theorem quietTopology_ideal : quietTopology.Ideal [2, 3] where
  undisturbed := by
    intro c hc
    refine ⟨hc, hc, rfl, ?_⟩
    intro sib hsib hne
    exact absurd (List.mem_singleton.mp hsib) hne
  turboOff := Or.inl rfl
  cpuFlags := rfl

theorem plainHost_describes : plainHost.Describes plainTopology where
  online := Or.inl ⟨by decide +kernel, by decide +kernel⟩
  isolated := Or.inl ⟨by decide +kernel, by decide +kernel⟩
  nohzFull := by
    have hread : plainHost.readToString "/sys/devices/system/cpu/nohz_full" =
        some (line "(null)".toList) := by
      decide +kernel
    have hall : (line "(null)".toList).all (fun c => !c.isDigit) = true := by
      decide +kernel
    refine Or.inr ⟨rfl, ?_⟩
    intro s hs c hc
    rw [hread] at hs
    rw [← Option.some.inj hs] at hc
    exact Bool.not_eq_true' _ ▸ List.all_eq_true.mp hall c hc
  siblings := by
    have hlists : forall c, c ∈ fourCpus -> plainHost.ListsCpus
        s!"/sys/devices/system/cpu/cpu{c}/topology/thread_siblings_list"
          (if c < 2 then [0, 1] else [2, 3]) := by
      unfold ListsCpus
      decide +kernel
    exact fun c hc => Or.inl (hlists c hc)
  siblingOnline := by decide +kernel
  siblingOffline := by decide +kernel
  coreId := by decide +kernel
  governor := by decide +kernel
  governorWord := by
    intro c _ g hg
    cases hg
  noTurbo := by
    unfold ShowsFlag
    decide +kernel
  boost := by
    unfold ShowsFlag
    decide +kernel
  sharedL3 := by
    show forall c, c ∈ fourCpus -> plainHost.readToString _ = none
    decide +kernel
  cpuFlags := steadyCpu_flags (by decide +kernel)

/-!
## The preflights
-/

/--
The preflight of two cores lets a bench run exactly when the build is optimised,
the cores are online and show different core ids, and the flags of the counter are
there or cannot be read.  It prints nothing exactly when the machine is ideal as
well.
-/
theorem two_core_preflight_verdict (h : host.Describes t) (cores : List Nat) :
    ((host.twoCorePreflight cores).finish.panicked = none <->
      host.debugAssertions = false ∧ t.Fit cores ∧
        cores.Pairwise t.Distinct) ∧
    ((host.twoCorePreflight cores).finish = ⟨[], none⟩ <->
      host.debugAssertions = false ∧ t.Fit cores ∧ cores.Pairwise t.Distinct ∧
        t.Ideal cores ∧ cores.Pairwise t.ShareL3) := by
  have hverdict := ((((((((host.releaseBuild_verdict.andThen
    (h.coresOnline cores)).andThen
    (host.coresIsolated_verdict cores)).andThen
    (host.coresNohzFull_verdict cores)).andThen
    (host.coresPerformanceGovernor_verdict cores)).andThen
    h.turboDisabled).andThen
    (host.coresDistinctPhysical_verdict cores)).andThen
    (host.coresSmtSiblingsQuiet_verdict cores)).andThen
    (host.coresShareL3_verdict cores)).andThen h.tsc
  have hruns := hverdict.runs_iff
  have hsilent := hverdict.silent_iff
  simp only [and_true, true_and] at hruns hsilent
  rw [twoCorePreflight, hruns, hsilent]
  constructor
  · constructor
    · rintro ⟨⟨⟨hrelease, honline⟩, hdistinct⟩, htsc⟩
      exact ⟨hrelease, ⟨honline, htsc⟩, (h.distinct honline).mp hdistinct⟩
    · rintro ⟨hrelease, ⟨honline, htsc⟩, hdistinct⟩
      exact ⟨⟨⟨hrelease, honline⟩, (h.distinct honline).mpr hdistinct⟩, htsc⟩
  · constructor
    · rintro ⟨⟨⟨⟨hrelease, honline⟩, hdistinct⟩, htsc⟩,
        ⟨⟨⟨⟨⟨hisolated, hnohz⟩, hgovernor⟩, hturbo⟩, hsiblings⟩, hl3⟩, hflags⟩
      exact ⟨hrelease, ⟨honline, htsc⟩, (h.distinct honline).mp hdistinct,
        ⟨(h.undisturbed honline).mp ⟨hisolated, hnohz, hgovernor, hsiblings⟩,
          hturbo, hflags⟩, (h.shareL3 honline).mp hl3⟩
    · rintro ⟨hrelease, ⟨honline, htsc⟩, hdistinct,
        ⟨hundisturbed, hturbo, hflags⟩, hl3⟩
      rcases (h.undisturbed honline).mpr hundisturbed with
        ⟨hisolated, hnohz, hgovernor, hsiblings⟩
      exact ⟨⟨⟨⟨hrelease, honline⟩, (h.distinct honline).mpr hdistinct⟩, htsc⟩,
        ⟨⟨⟨⟨⟨hisolated, hnohz⟩, hgovernor⟩, hturbo⟩, hsiblings⟩,
          (h.shareL3 honline).mpr hl3⟩, hflags⟩

/--
Silent on the two isolated cores of the quiet machine.  The other machine warns on
two cores and refuses two threads of one core.
-/
theorem two_core_preflight_verdict_quiet :
    (quietHost.twoCorePreflight [2, 3]).finish = ⟨[], none⟩ ∧
      (plainHost.twoCorePreflight [0, 2]).finish.panicked = none ∧
      (plainHost.twoCorePreflight [0, 2]).finish ≠ ⟨[], none⟩ ∧
      (plainHost.twoCorePreflight [0, 1]).finish.panicked ≠ none := by
  have hfit : plainTopology.Fit [0, 2] :=
    ⟨by decide, quietTopology_fit.tsc⟩
  have hpair : forall a b, plainTopology.coreId a ≠ plainTopology.coreId b ->
      [a, b].Pairwise plainTopology.Distinct := by
    intro a b hne
    refine List.pairwise_pair.mpr ?_
    intro id ha hb
    exact hne (ha.trans hb.symm)
  refine ⟨?_, ?_, ?_, ?_⟩
  · refine (two_core_preflight_verdict quietHost_describes [2, 3]).right.mpr
      ⟨rfl, quietTopology_fit, ?_, quietTopology_ideal, ?_⟩
    · refine List.pairwise_pair.mpr ?_
      intro id ha hb
      cases ha
      cases hb
    · refine List.pairwise_pair.mpr ?_
      intro la lb ha hb
      exact Option.some.inj (ha.symm.trans hb)
  · exact (two_core_preflight_verdict plainHost_describes [0, 2]).left.mpr
      ⟨rfl, hfit, hpair 0 2 (by decide)⟩
  · intro hsilent
    have hideal := (two_core_preflight_verdict plainHost_describes
      [0, 2]).right.mp hsilent
    have hisolated :=
      (hideal.right.right.right.left.undisturbed 0 List.mem_cons_self).isolated
    cases hisolated
  · intro hnone
    have hruns := (two_core_preflight_verdict plainHost_describes
      [0, 1]).left.mp hnone
    exact List.pairwise_pair.mp hruns.right.right 0 rfl rfl

end Host
end Bench
end LowLatency
