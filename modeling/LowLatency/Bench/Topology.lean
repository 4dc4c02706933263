import LowLatency.Bench.PreflightVerdict

/-!
# Machines and their files

A machine is described by the files that its kernel writes, and a kernel leaves
some of them out.  What a check finds in the files is what it asks of the machine.
-/

namespace LowLatency
namespace Bench

open Foundation
open Foundation.Text

def line (s : Text) : Text :=
  s ++ ['\n']

def digit (b : Bool) : Text :=
  if b then "1".toList else "0".toList

/-- The format `%d`. -/
def signed : Int -> Text
  | Int.ofNat n => decimal n
  | Int.negSucc n => '-' :: decimal (n + 1)

/--
What a machine is like.  A value is missing if the kernel does not tell it; a cpu
list that the kernel does not tell is empty.  `cpuFlags` has the flags of each cpu.
-/
structure Topology where
  online : List Nat
  isolated : List Nat
  nohzFull : List Nat
  threadSiblings : Nat -> List Nat
  coreId : Nat -> Option Int
  governor : Nat -> Option Text
  noTurbo : Option Bool
  boost : Option Bool
  sharedL3 : Nat -> Option (List Nat)
  cpuFlags : Option (List (List Text))
  hugepagesFree : Option Nat

namespace Host

def ListsCpus (host : Host) (path : String) (cpus : List Nat) : Prop :=
  host.readToString path = some (line (cpuList cpus)) ∧
    forall c, c ∈ cpus -> c < 2 ^ host.usizeBits

/-- There is no such file, or it is empty or says `(null)`. -/
def ListsNothing (host : Host) (path : String) : Prop :=
  forall s, host.readToString path = some s ->
    forall c, c ∈ s -> c.isDigit = false

def ShowsCpus (host : Host) (path : String) (cpus : List Nat) : Prop :=
  host.ListsCpus path cpus ∨ (cpus = [] ∧ host.ListsNothing path)

def ShowsFlag (host : Host) (path : String) (flag : Option Bool) : Prop :=
  host.readToString path = flag.map (fun b => line (digit b))

/-- The flags of a cpu in `/proc/cpuinfo`, each after a blank, and further lines. -/
def cpuBlock (cpu : List (Text × Text) × List Text) : List Text :=
  ("flags\t\t:".toList ++ columns cpu.1) :: cpu.2

/-- The names of the flags occur in no line but those of the flags. -/
def ShowsFlags (host : Host) : Option (List (List Text)) -> Prop
  | none => host.readToString "/proc/cpuinfo" = none
  | some flags => exists (before : List Text)
      (cpus : List (List (Text × Text) × List Text)),
      cpus.map (fun cpu => cpu.1.map Prod.snd) = flags ∧
      (forall cpu, cpu ∈ cpus -> forall w, w ∈ cpu.1 -> IsColumn w) ∧
      (forall l, l ∈ before ++ cpus.flatMap Prod.snd ->
        forall flag, flag ∈ tscFlags -> ¬ flag.toList <:+: l) ∧
      host.readToString "/proc/cpuinfo" =
        some (unlines (before ++ cpus.flatMap cpuBlock))

/-- What the kernel writes on a machine.  Cores that are offline have no directory. -/
structure Describes (host : Host) (t : Topology) : Prop where
  online : host.ShowsCpus "/sys/devices/system/cpu/online" t.online
  isolated : host.ShowsCpus "/sys/devices/system/cpu/isolated" t.isolated
  nohzFull : host.ShowsCpus "/sys/devices/system/cpu/nohz_full" t.nohzFull
  siblings : forall c, c ∈ t.online -> host.ShowsCpus
    s!"/sys/devices/system/cpu/cpu{c}/topology/thread_siblings_list"
      (t.threadSiblings c)
  /-- A cpu that cannot be taken offline has no such file. -/
  siblingOnline : forall c, c ∈ t.online -> forall sib,
    sib ∈ t.threadSiblings c -> sib ∈ t.online ->
      host.readToString s!"/sys/devices/system/cpu/cpu{sib}/online" = none ∨
      host.readToString s!"/sys/devices/system/cpu/cpu{sib}/online" =
        some (line (digit true))
  siblingOffline : forall c, c ∈ t.online -> forall sib,
    sib ∈ t.threadSiblings c -> sib ∉ t.online ->
      host.readToString s!"/sys/devices/system/cpu/cpu{sib}/online" =
        some (line (digit false))
  coreId : forall c, c ∈ t.online -> host.readToString
    s!"/sys/devices/system/cpu/cpu{c}/topology/core_id" =
      (t.coreId c).map (fun id => line (signed id))
  governor : forall c, c ∈ t.online -> host.readToString
    s!"/sys/devices/system/cpu/cpu{c}/cpufreq/scaling_governor" =
      (t.governor c).map line
  governorWord : forall c, c ∈ t.online -> forall g, t.governor c = some g ->
    NoSpace g
  noTurbo : host.ShowsFlag "/sys/devices/system/cpu/intel_pstate/no_turbo"
    t.noTurbo
  boost : host.ShowsFlag "/sys/devices/system/cpu/cpufreq/boost" t.boost
  sharedL3 : forall c, c ∈ t.online ->
    match t.sharedL3 c with
    | some cpus => host.ListsCpus
        s!"/sys/devices/system/cpu/cpu{c}/cache/index3/shared_cpu_list" cpus
    | none => host.readToString
        s!"/sys/devices/system/cpu/cpu{c}/cache/index3/shared_cpu_list" = none
  cpuFlags : host.ShowsFlags t.cpuFlags

end Host

namespace Topology

/-- A cpu has the flag, or one of a longer name such as `nonstop_tsc_s3`. -/
def HasFlag (t : Topology) (flag : String) : Prop :=
  exists cpus, t.cpuFlags = some cpus ∧ exists words, words ∈ cpus ∧
    exists word, word ∈ words ∧ flag.toList <:+: word

def TurboOff (t : Topology) : Prop :=
  t.noTurbo = some true ∨ (t.noTurbo = none ∧ t.boost = some false)

def SiblingsQuiet (t : Topology) (c : Nat) : Prop :=
  forall sib, sib ∈ t.threadSiblings c -> sib ≠ c -> sib ∈ t.online ->
    sib ∈ t.isolated

structure Undisturbed (t : Topology) (c : Nat) : Prop where
  isolated : c ∈ t.isolated
  nohzFull : c ∈ t.nohzFull
  governor : t.governor c = some "performance".toList
  siblings : t.SiblingsQuiet c

def Distinct (t : Topology) (a b : Nat) : Prop :=
  forall id, t.coreId a = some id -> t.coreId b ≠ some id

def ShareL3 (t : Topology) (a b : Nat) : Prop :=
  forall la lb, t.sharedL3 a = some la -> t.sharedL3 b = some lb -> la = lb

/-- A result on these cores means something, as far as is known. -/
structure Fit (t : Topology) (cores : List Nat) : Prop where
  online : forall c, c ∈ cores -> c ∈ t.online
  tsc : t.cpuFlags = none ∨ forall flag, flag ∈ tscFlags -> t.HasFlag flag

/-- A result on these cores is not degraded. -/
structure Ideal (t : Topology) (cores : List Nat) : Prop where
  undisturbed : forall c, c ∈ cores -> t.Undisturbed c
  turboOff : t.TurboOff
  cpuFlags : t.cpuFlags.isSome = true

end Topology

/-!
## What is read from the files
-/

theorem isGap_newline : IsGap ['\n'] := by
  intro c hc
  rw [List.mem_singleton.mp hc]
  decide

theorem trim_line {s : Text} (h : NoSpace s) : trim (line s) = s :=
  trim_append_gap h isGap_newline

theorem decimal_injective {a b : Nat} (h : decimal a = decimal b) : a = b := by
  have ha : Nat.ofDigitChars 10 (decimal a) 0 = a :=
    Nat.ofDigitChars_ten_toDigits
  rw [← ha, h]
  exact Nat.ofDigitChars_ten_toDigits

theorem signed_injective {a b : Int} (h : signed a = signed b) : a = b := by
  have hsign : forall m n, decimal m ≠ '-' :: decimal (n + 1) := by
    intro m n hsame
    apply not_mem_decimal (c := '-') rfl m
    rw [hsame]
    exact List.mem_cons_self
  cases a with
  | ofNat m =>
      cases b with
      | ofNat n => exact congrArg Int.ofNat (decimal_injective h)
      | negSucc n => exact absurd h (hsign m n)
  | negSucc m =>
      cases b with
      | ofNat n => exact absurd h.symm (hsign n m)
      | negSucc n =>
          have hsucc := decimal_injective (List.cons.inj h).right
          exact congrArg Int.negSucc (Nat.succ.inj hsucc)

theorem noSpace_signed (id : Int) : NoSpace (signed id) := by
  cases id with
  | ofNat n => exact NoSpace.decimal n
  | negSucc n =>
      intro c hc
      rcases List.mem_cons.mp hc with rfl | hdigit
      · decide
      · exact NoSpace.decimal (n + 1) c hdigit

theorem cpuList_injective {w : Nat} {xs ys : List Nat}
    (hx : forall c, c ∈ xs -> c < 2 ^ w) (hy : forall c, c ∈ ys -> c < 2 ^ w)
    (h : cpuList xs = cpuList ys) : xs = ys := by
  rw [← parseCpuList_cpuList hx, h]
  exact parseCpuList_cpuList hy

namespace Host

variable {host : Host} {t : Topology} {path : String} {cpus : List Nat}

theorem readTrim_of_line {s : Text} (hs : NoSpace s)
    (h : host.readToString path = some (line s)) :
    host.readTrim path = some s := by
  rw [readTrim, h, Option.map_some, trim_line hs]

theorem readTrim_of_map {α : Type} {word : α -> Text} {value : Option α}
    (hword : forall a, value = some a -> NoSpace (word a))
    (h : host.readToString path = value.map (fun a => line (word a))) :
    host.readTrim path = value.map word := by
  cases value with
  | none =>
      rw [readTrim, h]
      rfl
  | some a => exact readTrim_of_line (hword a rfl) h

theorem ListsCpus.readTrim (h : host.ListsCpus path cpus) :
    host.readTrim path = some (cpuList cpus) :=
  readTrim_of_line (noSpace_cpuList cpus) h.left

theorem ShowsCpus.readCpuList (h : host.ShowsCpus path cpus) :
    host.readCpuList path = cpus := by
  unfold Host.readCpuList
  rcases h with hlists | ⟨rfl, hnothing⟩
  · rw [hlists.readTrim, Option.map_some, Option.getD_some,
      parseCpuList_cpuList hlists.right]
  · unfold Host.readTrim
    cases hread : host.readToString path with
    | none => rfl
    | some s =>
        exact parseCpuList_eq_nil
          (fun c hc => hnothing s hread c (mem_of_mem_trim hc))

theorem noSpace_digit (b : Bool) : NoSpace (digit b) := by
  cases b with
  | false => exact noSpace_of_all (by decide +kernel)
  | true => exact noSpace_of_all (by decide +kernel)

theorem ShowsFlag.readTrim {flag : Option Bool}
    (h : host.ShowsFlag path flag) :
    host.readTrim path = flag.map digit :=
  readTrim_of_map (fun b _ => noSpace_digit b) h

theorem digit_injective : Function.Injective digit := by
  have hinjective : forall a b : Bool, digit a = digit b -> a = b := by
    decide +kernel
  exact fun a b => hinjective a b

/-- The flag is found in the text exactly if a cpu has it. -/
theorem ShowsFlags.infix_iff {flags : List (List Text)} {flag : String}
    (h : host.ShowsFlags (some flags)) (hflag : flag ∈ tscFlags) :
    exists cpuinfo, host.readToString "/proc/cpuinfo" = some cpuinfo ∧
      (flag.toList <:+: cpuinfo <-> exists words, words ∈ flags ∧
        exists word, word ∈ words ∧ flag.toList <:+: word) := by
  rcases h with ⟨before, cpus, rfl, hcolumns, hothers, hread⟩
  have hnames : forall name, name ∈ tscFlags ->
      name.toList ≠ [] ∧ '\n' ∉ name.toList ∧ NoSpace name.toList ∧
        ¬ name.toList <:+: "flags\t\t:".toList := by
    have hall : forall name, name ∈ tscFlags -> name.toList ≠ [] ∧
        '\n' ∉ name.toList ∧
        name.toList.all (fun c => !isWhitespace c) = true ∧
        ¬ name.toList <:+: "flags\t\t:".toList := by
      decide +kernel
    intro name hname
    rcases hall name hname with ⟨hne, hline, hspace, hlabel⟩
    exact ⟨hne, hline, noSpace_of_all hspace, hlabel⟩
  rcases hnames flag hflag with ⟨hne, hline, hspace, hlabel⟩
  refine ⟨_, hread, (infix_unlines_iff hne hline).trans ⟨?_, ?_⟩⟩
  · rintro ⟨l, hl, hin⟩
    rcases List.mem_append.mp hl with hl | hl
    · exact absurd hin (hothers l (List.mem_append_left _ hl) flag hflag)
    · rcases List.mem_flatMap.mp hl with ⟨cpu, hcpu, hl⟩
      rcases List.mem_cons.mp hl with rfl | hl
      · rcases (infix_columns_iff hspace (hcolumns cpu hcpu)).mp hin with
          habsurd | ⟨w, hw, hword⟩
        · exact absurd habsurd hlabel
        · exact ⟨cpu.1.map Prod.snd,
            List.mem_map.mpr ⟨cpu, hcpu, rfl⟩, w.2,
            List.mem_map.mpr ⟨w, hw, rfl⟩, hword⟩
      · have hother : l ∈ before ++ cpus.flatMap Prod.snd :=
          List.mem_append_right _ (List.mem_flatMap.mpr ⟨cpu, hcpu, hl⟩)
        exact absurd hin (hothers l hother flag hflag)
  · rintro ⟨words, hwords, word, hword, hin⟩
    rcases List.mem_map.mp hwords with ⟨cpu, hcpu, rfl⟩
    rcases List.mem_map.mp hword with ⟨w, hw, rfl⟩
    refine ⟨"flags\t\t:".toList ++ columns cpu.1, ?_, ?_⟩
    · exact List.mem_append_right _
        (List.mem_flatMap.mpr ⟨cpu, hcpu, List.mem_cons_self⟩)
    · exact (infix_columns_iff hspace (hcolumns cpu hcpu)).mpr
        (Or.inr ⟨w, hw, hin⟩)

namespace Describes

variable {cores : List Nat}

theorem turboDisabled (h : host.Describes t) :
    Verdict host.turboDisabled True t.TurboOff := by
  refine host.turboDisabled_verdict.congr Iff.rfl ?_
  rw [h.noTurbo.readTrim, h.boost.readTrim]
  have hdigit : forall (flag : Option Bool) (b : Bool),
      flag.map digit = some (digit b) <-> flag = some b :=
    fun flag b => (Option.map_injective digit_injective).eq_iff' rfl
  have hone : t.noTurbo.map digit = some "1".toList <-> _ :=
    hdigit t.noTurbo true
  have hzero : t.boost.map digit = some "0".toList <-> _ :=
    hdigit t.boost false
  rw [hone, hzero, Option.map_eq_none_iff]
  rfl

theorem tsc (h : host.Describes t) :
    Verdict host.tscInvariantAndNonstop
      (t.cpuFlags = none ∨ forall flag, flag ∈ tscFlags -> t.HasFlag flag)
      (t.cpuFlags.isSome = true) := by
  have hshown := h.cpuFlags
  cases hflags : t.cpuFlags with
  | none =>
      rw [hflags] at hshown
      have hread : host.readToString "/proc/cpuinfo" = none := hshown
      refine host.tscInvariantAndNonstop_verdict.congr ?_ ?_
      · rw [hread]
        exact ⟨fun _ => Or.inl rfl, fun _ _ heq => (by cases heq)⟩
      · rw [hread]
        rfl
  | some flags =>
      rw [hflags] at hshown
      have hread : forall flag, flag ∈ tscFlags -> forall cpuinfo,
          host.readToString "/proc/cpuinfo" = some cpuinfo ->
            (flag.toList <:+: cpuinfo <-> t.HasFlag flag) := by
        intro flag hflag cpuinfo hcpuinfo
        rcases hshown.infix_iff hflag with ⟨text, htext, hiff⟩
        rw [htext] at hcpuinfo
        rw [← Option.some.inj hcpuinfo, hiff]
        constructor
        · exact fun hword => ⟨flags, hflags, hword⟩
        · rintro ⟨cpus, hcpus, hword⟩
          rw [hflags] at hcpus
          rw [Option.some.inj hcpus]
          exact hword
      rcases hshown with ⟨_, _, _, _, _, htext⟩
      refine host.tscInvariantAndNonstop_verdict.congr ?_ ?_
      · constructor
        · intro hall
          exact Or.inr (fun flag hflag =>
            (hread flag hflag _ htext).mp (hall _ htext flag hflag))
        · rintro (habsurd | hall) cpuinfo hcpuinfo flag hflag
          · cases habsurd
          · exact (hread flag hflag cpuinfo hcpuinfo).mpr (hall flag hflag)
      · rw [htext]
        rfl

theorem coresOnline (h : host.Describes t) (cores : List Nat) :
    Verdict (fun r => host.coresOnline r cores)
      (forall c, c ∈ cores -> c ∈ t.online) True := by
  have hverdict := host.coresOnline_verdict cores
  rw [h.online.readCpuList] at hverdict
  exact hverdict

theorem readTrim_governor (h : host.Describes t) {c : Nat}
    (hc : c ∈ t.online) :
    host.readTrim
      s!"/sys/devices/system/cpu/cpu{c}/cpufreq/scaling_governor" =
        t.governor c := by
  have hread := readTrim_of_map (h.governorWord c hc) (h.governor c hc)
  rw [Option.map_id'] at hread
  exact hread

theorem mem_siblingsOf (h : host.Describes t) {c : Nat} (hc : c ∈ t.online)
    (sib : Nat) :
    sib ∈ host.siblingsOf c <-> sib ∈ t.threadSiblings c ∧ sib ≠ c := by
  rw [siblingsOf, (h.siblings c hc).readCpuList, List.mem_filter, bne_iff_ne]

/-- A sibling counts as offline only if its file says so. -/
theorem sibling_online (h : host.Describes t) {c : Nat} (hc : c ∈ t.online)
    {sib : Nat} (hsib : sib ∈ t.threadSiblings c) :
    host.readTrim s!"/sys/devices/system/cpu/cpu{sib}/online" ≠
      some "0".toList <-> sib ∈ t.online := by
  by_cases honline : sib ∈ t.online
  · refine ⟨fun _ => honline, fun _ => ?_⟩
    rcases h.siblingOnline c hc sib hsib honline with hno | hone
    · rw [readTrim, hno]
      exact Option.some_ne_none _ ∘ Eq.symm
    · rw [readTrim_of_line (noSpace_digit true) hone]
      decide +kernel
  · refine ⟨fun hne => ?_, fun hin => absurd hin honline⟩
    have hread := h.siblingOffline c hc sib hsib honline
    exact absurd (readTrim_of_line (noSpace_digit false) hread) hne

theorem siblingsQuiet (h : host.Describes t) {c : Nat} (hc : c ∈ t.online) :
    (forall sib, sib ∈ host.siblingsOf c ->
      host.readTrim s!"/sys/devices/system/cpu/cpu{sib}/online" ≠
          some "0".toList ->
        sib ∈ host.readCpuList "/sys/devices/system/cpu/isolated") <->
    t.SiblingsQuiet c := by
  rw [h.isolated.readCpuList]
  constructor
  · intro hquiet sib hsib hne honline
    exact hquiet sib ((h.mem_siblingsOf hc sib).mpr ⟨hsib, hne⟩)
      ((h.sibling_online hc hsib).mpr honline)
  · intro hquiet sib hsib hon
    rcases (h.mem_siblingsOf hc sib).mp hsib with ⟨hmem, hne⟩
    exact hquiet sib hmem hne ((h.sibling_online hc hmem).mp hon)

theorem undisturbed (h : host.Describes t)
    (honline : forall c, c ∈ cores -> c ∈ t.online) :
    ((forall c, c ∈ cores -> c ∈ host.readCpuList
        "/sys/devices/system/cpu/isolated") ∧
      (forall c, c ∈ cores -> c ∈ host.readCpuList
        "/sys/devices/system/cpu/nohz_full") ∧
      (forall c, c ∈ cores -> host.readTrim
        s!"/sys/devices/system/cpu/cpu{c}/cpufreq/scaling_governor" =
          some "performance".toList) ∧
      (forall c, c ∈ cores -> forall sib, sib ∈ host.siblingsOf c ->
        host.readTrim s!"/sys/devices/system/cpu/cpu{sib}/online" ≠
            some "0".toList ->
          sib ∈ host.readCpuList "/sys/devices/system/cpu/isolated")) <->
    forall c, c ∈ cores -> t.Undisturbed c := by
  constructor
  · rintro ⟨hisolated, hnohz, hgovernor, hquiet⟩ c hc
    have hread := h.readTrim_governor (honline c hc)
    constructor
    · exact h.isolated.readCpuList ▸ hisolated c hc
    · exact h.nohzFull.readCpuList ▸ hnohz c hc
    · exact hread.symm.trans (hgovernor c hc)
    · exact (h.siblingsQuiet (honline c hc)).mp (hquiet c hc)
  · intro hall
    refine ⟨?_, ?_, ?_, ?_⟩
    · rw [h.isolated.readCpuList]
      exact fun c hc => (hall c hc).isolated
    · rw [h.nohzFull.readCpuList]
      exact fun c hc => (hall c hc).nohzFull
    · intro c hc
      rw [h.readTrim_governor (honline c hc), (hall c hc).governor]
    · intro c hc
      exact (h.siblingsQuiet (honline c hc)).mpr (hall c hc).siblings

theorem distinct (h : host.Describes t)
    (honline : forall c, c ∈ cores -> c ∈ t.online) :
    cores.Pairwise (fun a b => ¬ host.SameCoreId a b) <->
      cores.Pairwise t.Distinct := by
  have hread : forall c, c ∈ cores ->
      host.coreId c = (t.coreId c).map signed :=
    fun c hc => readTrim_of_map (fun id _ => noSpace_signed id)
      (h.coreId c (honline c hc))
  apply List.Pairwise.iff_of_mem
  intro a b ha hb
  constructor
  · intro hdiffer id hida hidb
    apply hdiffer
    refine ⟨signed id, ?_, ?_⟩
    · rw [hread a ha, hida]
      rfl
    · rw [hread b hb, hidb]
      rfl
  · rintro hdistinct ⟨shown, hshownA, hshownB⟩
    rw [hread a ha] at hshownA
    rw [hread b hb] at hshownB
    rcases Option.map_eq_some_iff.mp hshownA with ⟨id, hida, rfl⟩
    rcases Option.map_eq_some_iff.mp hshownB with ⟨id', hidb, hsame⟩
    rw [signed_injective hsame] at hidb
    exact hdistinct id hida hidb

theorem shareL3 (h : host.Describes t)
    (honline : forall c, c ∈ cores -> c ∈ t.online) :
    cores.Pairwise host.SameL3 <-> cores.Pairwise t.ShareL3 := by
  have hread : forall c, c ∈ cores ->
      host.l3 c = (t.sharedL3 c).map cpuList ∧
        forall cpus, t.sharedL3 c = some cpus ->
          forall d, d ∈ cpus -> d < 2 ^ host.usizeBits := by
    intro c hc
    have hshown := h.sharedL3 c (honline c hc)
    cases hl3 : t.sharedL3 c with
    | none =>
        rw [hl3] at hshown
        refine ⟨?_, fun _ heq => by cases heq⟩
        rw [l3, readTrim, hshown]
        rfl
    | some cpus =>
        rw [hl3] at hshown
        refine ⟨hshown.readTrim, ?_⟩
        intro cpus' heq
        rw [← Option.some.inj heq]
        exact hshown.right
  apply List.Pairwise.iff_of_mem
  intro a b ha hb
  rcases hread a ha with ⟨hla, hrangeA⟩
  rcases hread b hb with ⟨hlb, hrangeB⟩
  constructor
  · intro hsame la lb hshownA hshownB
    apply cpuList_injective (hrangeA la hshownA) (hrangeB lb hshownB)
    apply hsame
    · rw [hla, hshownA]
      rfl
    · rw [hlb, hshownB]
      rfl
  · intro hshare la lb hreadA hreadB
    rw [hla] at hreadA
    rw [hlb] at hreadB
    rcases Option.map_eq_some_iff.mp hreadA with ⟨xs, hxs, rfl⟩
    rcases Option.map_eq_some_iff.mp hreadB with ⟨ys, hys, rfl⟩
    rw [hshare xs ys hxs hys]

end Describes

end Host
end Bench
end LowLatency
