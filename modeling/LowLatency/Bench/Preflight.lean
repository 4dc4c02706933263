import LowLatency.Bench.CpuList

/-!
# The preflight checks

Each check reads some files of the kernel and adds warnings and failures to a
report.  A bench chooses its checks and ends with `finish`.
-/

namespace LowLatency
namespace Bench

open Foundation
open Foundation.Text

structure PreflightReport where
  warnings : List String
  failures : List String
deriving DecidableEq, Repr

/-- What `finish` prints, and the message of its panic. -/
structure Finished where
  printed : List String
  panicked : Option String
deriving DecidableEq, Repr

namespace PreflightReport

def empty : PreflightReport :=
  ⟨[], []⟩

def warn (r : PreflightReport) (msg : String) : PreflightReport :=
  { r with warnings := r.warnings ++ [msg] }

def fail (r : PreflightReport) (msg : String) : PreflightReport :=
  { r with failures := r.failures ++ [msg] }

def finish (r : PreflightReport) : Finished :=
  let warned := r.warnings.map (fun w => s!"WARNING: {w}")
  if r.failures.isEmpty then ⟨warned, none⟩
  else
    ⟨warned ++ r.failures.map (fun f => s!"FAILURE: {f}"),
      some "preflight failed: results would be meaningless"⟩

end PreflightReport

def pairs : List Nat -> List (Nat × Nat)
  | [] => []
  | a :: rest => rest.map (fun b => (a, b)) ++ pairs rest

/-- The number in the line `HugePages_Free:`. -/
def hugepagesFree (meminfo : Text) : Option Nat :=
  (((lines meminfo).findSome?
    (stripPrefix "HugePages_Free:".toList)).bind
      (fun s => (splitWhitespace s).head?)).bind (parseUnsigned 64)

def tscFlags : List String :=
  ["constant_tsc", "nonstop_tsc"]

/-- The build and the files that a bench finds, and the width of `usize`. -/
structure Host where
  usizeBits : Nat
  debugAssertions : Bool
  readToString : String -> Option Text

namespace Host

def readTrim (host : Host) (path : String) : Option Text :=
  (host.readToString path).map trim

def readCpuList (host : Host) (path : String) : List Nat :=
  ((host.readTrim path).map (parseCpuList host.usizeBits)).getD []

def siblingsOf (host : Host) (c : Nat) : List Nat :=
  (host.readCpuList
    s!"/sys/devices/system/cpu/cpu{c}/topology/thread_siblings_list").filter
      (fun s => s != c)

def releaseBuild (host : Host) (r : PreflightReport) : PreflightReport :=
  if host.debugAssertions then
    r.fail "debug build, build with `--release` instead"
  else r

def coresOnline (host : Host) (r : PreflightReport) (cores : List Nat) :
    PreflightReport :=
  let online := host.readCpuList "/sys/devices/system/cpu/online"
  cores.foldl (fun r c =>
    if online.contains c then r else r.fail s!"core {c} is offline") r

def coresIsolated (host : Host) (r : PreflightReport) (cores : List Nat) :
    PreflightReport :=
  let isolated := host.readCpuList "/sys/devices/system/cpu/isolated"
  cores.foldl (fun r c =>
    if isolated.contains c then r
    else r.warn s!"core {c} not in isolcpus (got {isolated})") r

def coresNohzFull (host : Host) (r : PreflightReport) (cores : List Nat) :
    PreflightReport :=
  let nohz := host.readCpuList "/sys/devices/system/cpu/nohz_full"
  cores.foldl (fun r c =>
    if nohz.contains c then r else r.warn s!"core {c} not in nohz_full") r

def checkGovernor (host : Host) (r : PreflightReport) (c : Nat) :
    PreflightReport :=
  let g := host.readTrim
    s!"/sys/devices/system/cpu/cpu{c}/cpufreq/scaling_governor"
  match g with
  | some other =>
      if other = "performance".toList then r
      else
        let shown := String.ofList other
        r.warn s!"core {c} governor = {shown}, want performance"
  | none => r.warn s!"core {c} governor unreadable"

def coresPerformanceGovernor (host : Host) (r : PreflightReport)
    (cores : List Nat) : PreflightReport :=
  cores.foldl host.checkGovernor r

def turboDisabled (host : Host) (r : PreflightReport) : PreflightReport :=
  match host.readTrim "/sys/devices/system/cpu/intel_pstate/no_turbo" with
  | some s =>
      if s = "1".toList then r
      else
        let other := String.ofList s
        r.warn s!"intel_pstate/no_turbo = {other}, want 1"
  | none =>
      match host.readTrim "/sys/devices/system/cpu/cpufreq/boost" with
      | some s =>
          if s = "0".toList then r
          else
            let other := String.ofList s
            r.warn s!"cpufreq/boost = {other}, want 0"
      | none =>
          r.warn "turbo state unreadable (neither Intel pstate nor AMD boost)"

def coreId (host : Host) (c : Nat) : Option Text :=
  host.readTrim s!"/sys/devices/system/cpu/cpu{c}/topology/core_id"

def checkDistinct (host : Host) (r : PreflightReport) (p : Nat × Nat) :
    PreflightReport :=
  let (a, b) := p
  let idA := host.coreId a
  let idB := host.coreId b
  if idA.isSome && idA == idB then
    let id := String.ofList (idA.getD [])
    r.fail s!"cores {a} and {b} are SMT siblings of physical core {id}"
  else r

def coresDistinctPhysical (host : Host) (r : PreflightReport)
    (cores : List Nat) : PreflightReport :=
  (pairs cores).foldl host.checkDistinct r

def checkSibling (host : Host) (isolated : List Nat) (c : Nat)
    (r : PreflightReport) (sib : Nat) : PreflightReport :=
  let sibOnline :=
    host.readTrim s!"/sys/devices/system/cpu/cpu{sib}/online" !=
      some "0".toList
  let sibIsolated := isolated.contains sib
  if sibOnline && !sibIsolated then
    r.warn (s!"SMT sibling of {c} is cpu {sib}, online and not isolated " ++
      "will steal execution units")
  else r

def coresSmtSiblingsQuiet (host : Host) (r : PreflightReport)
    (cores : List Nat) : PreflightReport :=
  let isolated := host.readCpuList "/sys/devices/system/cpu/isolated"
  cores.foldl (fun r c =>
    (host.siblingsOf c).foldl (host.checkSibling isolated c) r) r

def l3 (host : Host) (c : Nat) : Option Text :=
  host.readTrim
    s!"/sys/devices/system/cpu/cpu{c}/cache/index3/shared_cpu_list"

def checkL3 (host : Host) (r : PreflightReport) (p : Nat × Nat) :
    PreflightReport :=
  let (a, b) := p
  match host.l3 a, host.l3 b with
  | some la, some lb =>
      if la = lb then r
      else
        let la := String.ofList la
        let lb := String.ofList lb
        r.warn s!"cores {a} and {b} don't share L3 ({la} vs {lb})"
  | _, _ => r

def coresShareL3 (host : Host) (r : PreflightReport) (cores : List Nat) :
    PreflightReport :=
  (pairs cores).foldl host.checkL3 r

def tscInvariantAndNonstop (host : Host) (r : PreflightReport) :
    PreflightReport :=
  match host.readToString "/proc/cpuinfo" with
  | none => r.warn "/proc/cpuinfo unreadable, cannot verify TSC quality"
  | some cpuinfo =>
      tscFlags.foldl (fun r flag =>
        if flag.toList <:+: cpuinfo then r
        else r.fail s!"CPU missing `{flag}`; TSC unsuitable") r

/-!
## The preflights of the benches
-/

/-- The report of `TwoCoreCtx::preflight`, which the seqlock bench repeats. -/
def twoCorePreflight (host : Host) (usedCores : List Nat) : PreflightReport :=
  let r := PreflightReport.empty
  let r := host.releaseBuild r
  let r := host.coresOnline r usedCores
  let r := host.coresIsolated r usedCores
  let r := host.coresNohzFull r usedCores
  let r := host.coresPerformanceGovernor r usedCores
  let r := host.turboDisabled r
  let r := host.coresDistinctPhysical r usedCores
  let r := host.coresSmtSiblingsQuiet r usedCores
  let r := host.coresShareL3 r usedCores
  host.tscInvariantAndNonstop r

end Host
end Bench
end LowLatency
