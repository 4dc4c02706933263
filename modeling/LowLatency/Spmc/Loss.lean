import LowLatency.Spmc.Accounting
import LowLatency.Spmc.Readers

/-!
# No spurious loss

A lap is only reported after a lap, and an empty ring only at its end.  A
consumer that keeps up with the producer therefore reads every value.
-/

namespace LowLatency
namespace Spmc

open Foundation

namespace System

variable {W : Nat} {cap : Capacity W} {m : Nat} {Word : Type _}
variable {s s' : System cap m Word}

def Accounts (s : System cap m Word) : Prop :=
  forall c r, s.readers c = some r -> r.Accounted

namespace Accounts

theorem new (cap : Capacity W) (m : Nat) (Word : Type _) [Zero Word] :
    Accounts (System.new cap m Word) := by
  intro c r hr
  rw [readers_new hr]
  exact Reader.Accounted.new W m Word

theorem readStep {r r' : Reader W m Word} [Zero Word] (hring : Ring s)
    (hok : ReaderOk s r) (hr : r.Accounted) {a : ReadAction m}
    (h : s.readStep r a = some r') : r'.Accounted := by
  cases a with
  | call => exact hr.beginCall h
  | loadWriteCursor =>
      rw [System.readStep, hring.cursor] at h
      exact hr.gotWriteCursor hok.cursors (Nat.le_refl _) (Nat.le_refl _) h
  | loadSeq => exact hr.gotSeq h
  | loadWord i => exact hr.gotWord h

theorem step [Zero Word] (hring : Ring s) (hreaders : Readers s)
    (hs : Accounts s) {a : Action m Word} (h : s.step a = some s') :
    Accounts s' := by
  intro c r' hr'
  rcases step_readers h hr' with hold | ⟨r, b, hr, hstep⟩ |
    ⟨_, r, _, _, hclone⟩
  · exact hs c r' hold
  · exact readStep hring (hreaders c r hr) (hs c r hr) hstep
  · exact Reader.Accounted.clone hclone

theorem reachable [Zero Word] (hs : (machine cap m Word).Reachable s) :
    Accounts s :=
  hs.invariant_of_reachable (P := Accounts) (Accounts.new cap m Word)
    (fun _ _ _ hreach ha h =>
      Accounts.step (Ring.reachable hreach) (Readers.reachable hreach) ha h)

end Accounts

/-!
## A consumer that keeps up
-/

/-- Every read ended before the publish of position `r + CAPACITY` began. -/
def KeepsUp (cap : Capacity W) (r : Reader W m Word) : Prop :=
  forall e, e ∈ r.log -> e.progress.begun ≤ e.position + cap.size

namespace KeepsUp

variable {r : Reader W m Word}

theorem lagBelow (hk : KeepsUp cap r) (hok : ReaderOk s r) :
    r.LagBelow (2 ^ W) := by
  intro e he
  rcases (hok.log e he).progress with ⟨hcompleted, hstamped⟩
  have hbegun := hk e he
  have hsize := cap.size_lt
  lia

theorem not_lapped (hk : KeepsUp cap r) (hok : ReaderOk s r)
    {e : ReadRecord W m Word} (he : e ∈ r.log) (skipped : BitVec W) :
    e.result ≠ ReadResult.lapped skipped := by
  intro hlapped
  rcases (hok.log e he).lapped skipped hlapped with ⟨p, _, hlap, hlt⟩
  have hstamped := (hok.log e he).progress.right
  have hbegun := hk e he
  lia

theorem value_published (hk : KeepsUp cap r) (hok : ReaderOk s r)
    {e : ReadRecord W m Word} (he : e ∈ r.log) {v : Payload m Word}
    (hvalue : e.result = ReadResult.value v) :
    s.published[e.position]? = some v := by
  apply (hok.log e he).value v hvalue
  exact Nat.le_trans (hk e he)
    (Nat.add_le_add_left cap.size_le_half e.position)

end KeepsUp

/--
A lap is reported only if a position of the same slot, at least one lap ahead,
has been stamped; an empty ring only if `write_cursor` is at the reader's
position.  Whoever keeps up reads the published values one after the other.
-/
theorem no_spurious_loss [Zero Word]
    (hreach : (machine cap m Word).Reachable s) {c : Nat}
    {r : Reader W m Word} (hr : s.readers c = some r) :
    (forall e, e ∈ r.log -> forall skipped,
      e.result = ReadResult.lapped skipped ->
        exists p, Nat.ModEq cap.size p e.position ∧
          e.position + cap.size ≤ p ∧ p < e.progress.stamped) ∧
    (forall e, e ∈ r.log -> e.result = ReadResult.empty ->
      e.progress.completed < e.position + 2 ^ (W - 1) ->
        e.progress.completed = e.position) ∧
    (KeepsUp cap r ->
      (forall e, e ∈ r.log -> forall skipped,
        e.result ≠ ReadResult.lapped skipped) ∧
      r.start ≤ r.position ∧ r.position ≤ s.completed ∧
      r.log.filterMap (fun e => e.result.value?) =
        (s.published.drop r.start).take (r.position - r.start)) := by
  have hok := Readers.reachable hreach c r hr
  refine ⟨fun e he => (hok.log e he).lapped,
    fun e he => (hok.log e he).empty, ?_⟩
  intro hk
  have hchain := Accounts.reachable hreach c r hr (hk.lagBelow hok)
  refine ⟨fun e he => hk.not_lapped hok he, hchain.le, ?_,
    hchain.values ?_⟩
  · exact Nat.le_trans hok.cursors.position_le hok.cursors.cached_le
  · intro e he
    cases hresult : e.result with
    | value v =>
        exact Or.inr ⟨v, rfl, hk.value_published hok he hresult⟩
    | empty => exact Or.inl rfl
    | lapped skipped => exact absurd hresult (hk.not_lapped hok he skipped)

/-- The lapped first read of one schedule, and the reader of the other. -/
theorem no_spurious_loss_overtaken :
    (exists s, (machine (⟨1#2, 0, rfl⟩ : Capacity 2) 2 Nat).run
        (overtaken (fun i => 10 + i) (fun i => 20 + i)) = some s ∧
      exists r e, s.readers 0 = some r ∧ e ∈ r.log ∧ e.position = 0 ∧
        exists p, 1 ≤ p ∧ p < e.progress.stamped) ∧
    exists s, (machine (⟨1#2, 0, rfl⟩ : Capacity 2) 2 Nat).run
        (keepingUp (fun i => 10 + i) (fun i => 20 + i)) = some s ∧
      exists r e, s.readers 0 = some r ∧ r.log[0]? = some e ∧
        e.result = ReadResult.empty ∧ e.progress.completed = e.position ∧
        r.log.length = 3 ∧
        r.log.filterMap (fun e => e.result.value?) =
          (s.published.drop 0).take 2 := by
  constructor
  · apply Machine.exists_run_of_map
      (fun s => (s.readers 0).bind (fun r => r.log[0]?.bind (fun e =>
        e.result.skipped?.map (fun skipped => (e.position, skipped)))))
      (some (0, 1#2)) (by decide +kernel)
    intro s hrun hshown
    rcases Option.bind_eq_some_iff.mp hshown with ⟨r, hr, hread⟩
    rcases Option.bind_eq_some_iff.mp hread with ⟨e, he, hlapped⟩
    rcases Option.map_eq_some_iff.mp hlapped with ⟨skipped, hskipped, hfields⟩
    have hmem := List.mem_of_getElem? he
    have hposition : e.position = 0 := congrArg Prod.fst hfields
    rcases (no_spurious_loss ⟨_, hrun⟩ hr).left e hmem skipped
      (ReadResult.skipped?_eq_some.mp hskipped) with ⟨p, _, hlap, hlt⟩
    exact ⟨r, e, hr, hmem, hposition, p,
      Nat.le_trans (Nat.le_add_left 1 _) hlap, hlt⟩
  · apply Machine.exists_run_of_map
      (fun s => (s.readers 0).bind (fun r => r.log[0]?.map (fun e =>
        ((e.result.value?.isNone && e.result.skipped?.isNone,
          e.progress.completed, e.position), r.log.length, r.start,
          r.position, r.log.all (fun e =>
            decide (e.progress.begun ≤ e.position + 1))))))
      (some ((true, 0, 0), 3, 0, 2, true)) (by decide +kernel)
    intro s hrun hshown
    rcases Option.bind_eq_some_iff.mp hshown with ⟨r, hr, hread⟩
    rcases Option.map_eq_some_iff.mp hread with ⟨e, he, hfields⟩
    simp only [Prod.mk.injEq] at hfields
    rcases hfields with
      ⟨⟨hnone, hcompleted, hposition⟩, hlength, hstart, hend, hall⟩
    have hempty := ReadResult.eq_empty hnone
    have hk : KeepsUp (⟨1#2, 0, rfl⟩ : Capacity 2) r := by
      intro e he
      exact of_decide_eq_true (List.all_eq_true.mp hall e he)
    rcases no_spurious_loss ⟨_, hrun⟩ hr with ⟨_, hloaded, hkept⟩
    have hvalues := (hkept hk).right.right.right
    rw [hstart, hend] at hvalues
    refine ⟨r, e, hr, he, hempty, ?_, hlength, hvalues⟩
    apply hloaded e (List.mem_of_getElem? he) hempty
    rw [hcompleted, hposition]
    decide

end System
end Spmc
end LowLatency
