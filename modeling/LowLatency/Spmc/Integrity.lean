import LowLatency.Spmc.Readers

/-!
# Integrity of the values read

A returned value is the whole published value of the position at which the
read started, however often the producer has overtaken the reader.
-/

namespace LowLatency
namespace Spmc

open Foundation

namespace System

variable {W : Nat} {cap : Capacity W} {m : Nat} {Word : Type _} [Zero Word]
variable {s : System cap m Word}

theorem value_is_published (hreach : (machine cap m Word).Reachable s)
    {c : Nat} {r : Reader W m Word} (hr : s.readers c = some r)
    {e : ReadRecord W m Word} (he : e ∈ r.log) {v : Payload m Word}
    (hvalue : e.result = ReadResult.value v)
    (hbegun : e.progress.begun ≤ e.position + 2 ^ (W - 1)) :
    s.published[e.position]? = some v :=
  ((Readers.reachable hreach c r hr).log e he).value v hvalue hbegun

/-- The second read of the schedule, with sequence numbers of two bits. -/
theorem value_is_published_overtaken :
    exists s, (machine (⟨1#2, 0, rfl⟩ : Capacity 2) 2 Nat).run
        (overtaken (fun i => 10 + i) (fun i => 20 + i)) = some s ∧
      exists r e v, s.readers 0 = some r ∧ e ∈ r.log ∧
        e.result = ReadResult.value v ∧
        s.published[e.position]? = some v ∧ v 0 = 20 ∧ v 1 = 21 := by
  apply Machine.exists_run_of_map
    (fun s => (s.readers 0).bind (fun r => r.log[1]?.bind (fun e =>
      e.result.value?.map (fun v =>
        (e.position, e.progress.begun, v 0, v 1)))))
    (some (1, 2, 20, 21)) (by decide +kernel)
  intro s hrun hshown
  rcases Option.bind_eq_some_iff.mp hshown with ⟨r, hr, hread⟩
  rcases Option.bind_eq_some_iff.mp hread with ⟨e, he, hvalue⟩
  rcases Option.map_eq_some_iff.mp hvalue with ⟨v, hv, hfields⟩
  simp only [Prod.mk.injEq] at hfields
  rcases hfields with ⟨hposition, hbegun, hfirst, hsecond⟩
  have hmem := List.mem_of_getElem? he
  have hresult := ReadResult.value?_eq_some.mp hv
  have hclose : e.progress.begun ≤ e.position + 2 ^ (2 - 1) := by
    rw [hposition, hbegun]
    decide
  exact ⟨r, e, v, hr, hmem, hresult,
    value_is_published ⟨_, hrun⟩ hr hmem hresult hclose, hfirst, hsecond⟩

end System
end Spmc
end LowLatency
