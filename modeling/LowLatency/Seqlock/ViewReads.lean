import LowLatency.Seqlock.ViewStores

/-!
# Reads under weak memory

A read that loaded `s1` from the even store of version `a` sees words of `a` or
newer ones.  A newer word carries the odd store of its write, so that after the
acquire fence `s2` cannot be loaded from the store of `s1` any more.
-/

namespace LowLatency
namespace Seqlock

open Foundation

namespace ViewSystem

variable {Id : Type _} {m : Nat} {Word : Type}
variable {s s' : ViewSystem Id m Word}

/-!
## One reader
-/

/-- `s1` was loaded from the even store at index `t` of `seq`. -/
def Loaded (completed t : Nat) (s1 : BitVec 64) : Prop :=
  s1 = BitVec.ofNat 64 t ∧ exists a, t = 2 * a ∧ a ≤ completed

def Copied (versions : List (Payload m Word)) (t : Nat)
    (view : View (Location m)) (w : Fin m) (word : Word) : Prop :=
  exists u value, versions[u]? = some value ∧ word = value w ∧
    t ≤ 2 * u ∧ 2 * u ≤ view Location.seq + 1

def PcOk (versions : List (Payload m Word)) (completed t : Nat)
    (view : ThreadView (Location m)) : ReadPc m Word -> Prop
  | ReadPc.readData s1 copied =>
      Loaded completed t s1 ∧
        (forall w, t ≤ 2 * view.current (Location.word w)) ∧
        forall w word, copied w = some word ->
          Copied versions t view.acquired w word
  | ReadPc.reloadSeq s1 readAttempt =>
      Loaded completed t s1 ∧
        forall w, Copied versions t view.current w (readAttempt w)
  | _ => True

structure ReaderOk (versions : List (Payload m Word)) (completed : Nat)
    (r : ViewReader m Word) : Prop where
  seqIndex : r.seqIndex ≤ r.view.current Location.seq
  pc : PcOk versions completed r.seqIndex r.view r.pc

theorem Copied.mono {versions versions' : List (Payload m Word)} {t : Nat}
    {view view' : View (Location m)} {w : Fin m} {word : Word}
    (h : Copied versions t view w word)
    (hversions : forall (u : Nat) (v : Payload m Word),
      versions[u]? = some v -> versions'[u]? = some v)
    (hview : view Location.seq ≤ view' Location.seq) :
    Copied versions' t view' w word := by
  rcases h with ⟨u, value, hget, hword, hlow, hhigh⟩
  exact ⟨u, value, hversions u value hget, hword, hlow, by lia⟩

namespace ReaderOk

variable {versions : List (Payload m Word)} {completed : Nat}
variable {r : ViewReader m Word}

theorem mono (hr : ReaderOk versions completed r)
    {versions' : List (Payload m Word)} {completed' : Nat}
    (hversions : forall (u : Nat) (v : Payload m Word),
      versions[u]? = some v -> versions'[u]? = some v)
    (hcompleted : completed ≤ completed') :
    ReaderOk versions' completed' r := by
  exists hr.seqIndex
  have hpc := hr.pc
  cases hkind : r.pc with
  | idle => exact trivial
  | loadSeq => exact trivial
  | readData s1 copied =>
      rw [hkind] at hpc
      rcases hpc with ⟨⟨hs1, a, ha, hle⟩, hwords, hcopied⟩
      refine ⟨⟨hs1, a, ha, Nat.le_trans hle hcompleted⟩, hwords, ?_⟩
      intro w word hword
      exact (hcopied w word hword).mono hversions (Nat.le_refl _)
  | reloadSeq s1 readAttempt =>
      rw [hkind] at hpc
      rcases hpc with ⟨⟨hs1, a, ha, hle⟩, hcopied⟩
      refine ⟨⟨hs1, a, ha, Nat.le_trans hle hcompleted⟩, ?_⟩
      intro w
      exact (hcopied w).mono hversions (Nat.le_refl _)

theorem call (hr : ReaderOk versions completed r) :
    ReaderOk versions completed { r with pc := ReadPc.loadSeq } :=
  ⟨hr.seqIndex, trivial⟩

theorem loadSeq (hs : Stores s) {k : Nat}
    {msg : Message (Location m) (BitVec 64)}
    (hr : ReaderOk s.versions s.completed r)
    (hload : s.memory.load? r.view.current Location.seq k = some msg)
    {pc : ReadPc m Word} {out : Option (Payload m Word)}
    (hgot : r.pc.gotSeq msg.value = some (pc, out)) :
    ReaderOk s.versions s.completed (afterSeq r pc k msg) ∧
      r.seqIndex ≤ (afterSeq r pc k msg).seqIndex := by
  rcases hs.each.load hload with ⟨hseen, hlast, hvalue, hwords⟩
  have hle := Nat.le_trans hr.seqIndex hseen
  have hacquire := r.view.index_le_loadAcquire Location.seq k msg
  have hrelaxed := Nat.le_trans hr.seqIndex
    (r.view.current_le_loadRelaxed Location.seq k msg Location.seq)
  rcases ReadPc.gotSeq_inv hgot with ⟨hpc, _, rfl, _⟩ | ⟨hpc, heven, rfl, _⟩ |
    ⟨v, hpc, rfl, _⟩ | ⟨s1, v, hpc, _, rfl, _⟩
  · rw [afterSeq, hpc]
    exact ⟨⟨hacquire, trivial⟩, hle⟩
  · rw [afterSeq, hpc]
    rw [hvalue] at heven
    have hk : exists a, k = 2 * a := by
      rcases Nat.even_or_odd' k with ⟨a, ha | ha⟩
      · exact ⟨a, ha⟩
      · rw [ha] at heven
        exact absurd (Words.odd_test_odd (by decide) a) heven
    rcases hk with ⟨a, ha⟩
    have hcompleted : a ≤ s.completed := by
      have hopened := s.writePc.opened_le_one
      rw [hs.count, newest] at hlast
      lia
    refine ⟨⟨hacquire, ⟨hvalue, a, ha, hcompleted⟩, ?_, ?_⟩, hle⟩
    · intro w
      have hview := r.view.view_le_loadAcquire Location.seq k msg
        (Location.word w)
      have hword := hwords a ha w
      dsimp only
      lia
    · intro _ _ hnone
      cases hnone
  · rw [afterSeq, hpc]
    exact ⟨⟨hrelaxed, trivial⟩, Nat.le_refl _⟩
  · rw [afterSeq, hpc]
    exact ⟨⟨hrelaxed, trivial⟩, Nat.le_refl _⟩

theorem loadWord (hs : Stores s) {w : Fin m} {u : Nat}
    {msg : Message (Location m) Word}
    (hr : ReaderOk s.versions s.completed r)
    (hload : s.memory.load? r.view.current (Location.word w) u = some msg)
    {pc : ReadPc m Word} (hgot : r.pc.gotWord w msg.value = some pc) :
    ReaderOk s.versions s.completed { r with
      pc := pc
      view := r.view.loadRelaxed (Location.word w) u msg } := by
  rcases hs.each.load hload with ⟨hseen, _, ⟨value, hget, hvalue⟩, hview⟩
  rcases ReadPc.gotWord_inv hgot with ⟨s1, copied, hpc, _, rfl⟩
  have hold := hr.pc
  rw [hpc] at hold
  rcases hold with ⟨hs1, hwords, hcopied⟩
  have hgrow := r.view.current_le_loadRelaxed (Location.word w) u msg
  refine ⟨Nat.le_trans hr.seqIndex (hgrow Location.seq), hs1, ?_, ?_⟩
  · intro v
    have hword := hgrow (Location.word v)
    have hv := hwords v
    dsimp only
    lia
  · intro v word hword
    rcases eq_or_ne v w with rfl | hne
    · rw [Function.update_self] at hword
      rw [← Option.some.inj hword]
      have hv := hwords v
      refine ⟨u, value, hget, hvalue, by lia, ?_⟩
      apply Nat.le_trans hview
      exact Nat.succ_le_succ (r.view.view_le_loadRelaxed _ u msg _)
    · rw [Function.update_of_ne hne] at hword
      exact (hcopied v word hword).mono (fun _ _ hv => hv)
        (r.view.acquired_le_loadRelaxed _ u msg _)

theorem fence (hr : ReaderOk versions completed r) {pc : ReadPc m Word}
    (hfence : r.pc.fence = some pc) :
    ReaderOk versions completed { r with
      pc := pc
      view := r.view.fenceAcquire } := by
  rcases ReadPc.fence_inv hfence with ⟨s1, copied, v, hpc, hcollect, rfl⟩
  have hold := hr.pc
  rw [hpc] at hold
  rcases hold with ⟨hs1, _, hcopied⟩
  refine ⟨Nat.le_trans hr.seqIndex (r.view.current_le_fenceAcquire _),
    hs1, ?_⟩
  intro w
  have hword := collect_eq_some_iff.mp hcollect w
  exact (hcopied w _ hword).mono (fun _ _ hv => hv)
    (r.view.acquired_le_fenceAcquire _)

theorem accepted (hs : Stores s) (hfew : s.versions.length ≤ 2 ^ 63)
    (hr : ReaderOk s.versions s.completed r) {k : Nat}
    {msg : Message (Location m) (BitVec 64)}
    (hload : s.memory.load? r.view.current Location.seq k = some msg)
    {v : Payload m Word} (hpc : r.pc = ReadPc.reloadSeq msg.value v) :
    s.versions[r.seqIndex / 2]? = some v := by
  rcases hs.each.load hload with ⟨hseen, hlast, hvalue, _⟩
  have hold := hr.pc
  rw [hpc] at hold
  rcases hold with ⟨⟨hs1, a, ha, hle⟩, hcopied⟩
  have hsame : r.seqIndex = k := by
    have hopened := s.writePc.opened_le_begun
    have hlength := hs.length
    rw [hs.count, newest] at hlast
    apply Words.eq_of_ofNat_eq (W := 64)
      (Nat.le_trans hr.seqIndex hseen) (by lia)
    rw [← hs1, hvalue]
  have hlt : a < s.versions.length := by
    have hlength := hs.length
    lia
  rw [show r.seqIndex / 2 = a by lia, List.getElem?_eq_getElem hlt]
  congr 1
  funext w
  rcases hcopied w with ⟨u, value, hget, hword, hlow, hhigh⟩
  have hu : u = a := by lia
  rw [hu, List.getElem?_eq_getElem hlt] at hget
  rw [hword, Option.some.inj hget]

end ReaderOk

/-!
## All readers
-/

structure ReturnsOk (s : ViewSystem Id m Word) : Prop where
  value : forall e, e ∈ s.returns -> s.versions[e.version]? = some e.value
  below : forall e, e ∈ s.returns ->
    2 * e.version ≤ (s.readers e.reader).seqIndex
  ordered : s.returns.Pairwise
    (fun e₁ e₂ => e₁.reader = e₂.reader -> e₁.version ≤ e₂.version)

structure ReadersOk (s : ViewSystem Id m Word) : Prop where
  reader : forall i, ReaderOk s.versions s.completed (s.readers i)
  returns : s.versions.length ≤ 2 ^ 63 -> ReturnsOk s

namespace ReadersOk

theorem new (Id : Type _) (initialValue : Payload m Word) :
    ReadersOk (ViewSystem.new Id initialValue) where
  reader _ := ⟨Nat.le_refl 0, trivial⟩
  returns _ := ⟨fun _ h => absurd h List.not_mem_nil,
    fun _ h => absurd h List.not_mem_nil, List.Pairwise.nil⟩

theorem returned (hs : ReadersOk s) {i : Id} {v : Payload m Word} {t : Nat}
    (hvalue : s.versions.length ≤ 2 ^ 63 -> s.versions[t / 2]? = some v)
    (ht : (s.readers i).seqIndex = t) :
    ReadersOk { s with returns := s.returns ++ [⟨i, v, t / 2⟩] } := by
  exists hs.reader
  intro hfew
  have hold := hs.returns hfew
  constructor
  · intro e he
    rcases List.mem_append.mp he with hmem | hlast
    · exact hold.value e hmem
    · rw [List.mem_singleton.mp hlast]
      exact hvalue hfew
  · intro e he
    rcases List.mem_append.mp he with hmem | hlast
    · exact hold.below e hmem
    · rw [List.mem_singleton.mp hlast]
      dsimp only
      lia
  · refine List.pairwise_append.mpr
      ⟨hold.ordered, List.pairwise_singleton _ _, ?_⟩
    intro e₁ he₁ e₂ he₂ hreader
    rw [List.mem_singleton.mp he₂] at hreader ⊢
    have hbelow := hold.below e₁ he₁
    dsimp only at hreader ⊢
    rw [hreader, ht] at hbelow
    lia

variable [DecidableEq Id]

theorem advance {a : ViewAction Id m Word} (hs : ReadersOk s)
    (h : s.step a = some s') (hne : forall i b, a ≠ ViewAction.read i b) :
    ReadersOk s' := by
  have ha := step_advances h
  have hreaders := ha.readers hne
  have hreturns := ha.returns hne
  constructor
  · intro i
    rw [hreaders]
    exact (hs.reader i).mono ha.version ha.completed
  · intro hfew
    rw [ha.versions, List.length_append] at hfew
    have hold := hs.returns (by lia)
    constructor
    · intro e he
      rw [hreturns] at he
      exact ha.version _ _ (hold.value e he)
    · intro e he
      rw [hreturns] at he
      rw [hreaders]
      exact hold.below e he
    · rw [hreturns]
      exact hold.ordered

theorem setReader (hs : ReadersOk s) {i : Id} {r : ViewReader m Word}
    (hr : ReaderOk s.versions s.completed r)
    (hle : (s.readers i).seqIndex ≤ r.seqIndex) :
    ReadersOk (s.setReader i r) := by
  have hgrow : forall j,
      (s.readers j).seqIndex ≤ ((s.setReader i r).readers j).seqIndex := by
    intro j
    rcases eq_or_ne j i with rfl | hne
    · rw [setReader_self]
      exact hle
    · rw [setReader_of_ne s hne]
  constructor
  · intro j
    rcases eq_or_ne j i with rfl | hne
    · rw [setReader_self]
      exact hr
    · rw [setReader_of_ne s hne]
      exact hs.reader j
  · intro hfew
    have hold := hs.returns hfew
    refine ⟨hold.value, ?_, hold.ordered⟩
    intro e he
    exact Nat.le_trans (hold.below e he) (hgrow e.reader)

theorem readLoadSeq (hstores : Stores s) (hs : ReadersOk s) {i : Id} {k : Nat}
    (h : s.readLoadSeq i k = some s') : ReadersOk s' := by
  rcases readLoadSeq_inv h with ⟨msg, pc, out, hload, hgot, hs'⟩
  have hr := (hs.reader i).loadSeq hstores hload hgot
  have hset := hs.setReader hr.left hr.right
  rcases hs' with ⟨_, rfl⟩ | ⟨v, rfl, rfl⟩
  · exact hset
  · have hpc : (s.readers i).pc = ReadPc.reloadSeq msg.value v := by
      rcases ReadPc.gotSeq_inv hgot with ⟨_, _, _, hnone⟩ | ⟨_, _, _, hnone⟩ |
        ⟨v', hpc, _, hv⟩ | ⟨_, _, _, _, _, hnone⟩
      · cases hnone
      · cases hnone
      · rw [hpc, Option.some.inj hv]
      · cases hnone
    apply hset.returned
    · intro hfew
      exact (hs.reader i).accepted hstores hfew hload hpc
    · rw [setReader_self, afterSeq, hpc]

theorem read (hstores : Stores s) (hs : ReadersOk s) {i : Id}
    {a : ViewReadAction m} (h : s.read i a = some s') : ReadersOk s' := by
  cases a with
  | call =>
      rcases readCall_inv h with ⟨_, rfl⟩
      exact hs.setReader (hs.reader i).call (Nat.le_refl _)
  | loadSeq k => exact hs.readLoadSeq hstores h
  | loadWord w u =>
      rcases readLoadWord_inv h with ⟨msg, pc, hload, hgot, rfl⟩
      exact hs.setReader ((hs.reader i).loadWord hstores hload hgot)
        (Nat.le_refl _)
  | fence =>
      rcases readFence_inv h with ⟨pc, hfence, rfl⟩
      exact hs.setReader ((hs.reader i).fence hfence) (Nat.le_refl _)

theorem step (hstores : Stores s) (hs : ReadersOk s) {a : ViewAction Id m Word}
    (h : s.step a = some s') : ReadersOk s' := by
  cases a with
  | writeCall value k => exact hs.advance h (fun _ _ hne => by cases hne)
  | writeStoreOdd => exact hs.advance h (fun _ _ hne => by cases hne)
  | writeFence => exact hs.advance h (fun _ _ hne => by cases hne)
  | writeWord w => exact hs.advance h (fun _ _ hne => by cases hne)
  | writeStoreEven => exact hs.advance h (fun _ _ hne => by cases hne)
  | read i a => exact hs.read hstores h

theorem reachable {initialValue : Payload m Word}
    (hs : (viewMachine Id initialValue).Reachable s) : ReadersOk s := by
  apply hs.invariant_of_reachable (ReadersOk.new Id initialValue)
  intro s a s' hreach hok h
  exact hok.step (Stores.reachable hreach) h

end ReadersOk

/-!
## Every execution
-/

variable [DecidableEq Id]

/--
Each read returns the payload of one version, the initial value or one write,
and a reader never returns an older version than before.
-/
theorem reads_single_version {initialValue : Payload m Word}
    {actions : List (ViewAction Id m Word)}
    (hrun : (viewMachine Id initialValue).run actions = some s)
    (hfew : (ViewAction.writes actions).length < 2 ^ 63) :
    (forall e, e ∈ s.returns ->
      (initialValue :: ViewAction.writes actions)[e.version]? =
        some e.value) ∧
    s.returns.Pairwise
      (fun e₁ e₂ => e₁.reader = e₂.reader -> e₁.version ≤ e₂.version) := by
  have hversions : s.versions = initialValue :: ViewAction.writes actions :=
    runFrom_versions hrun
  have hok := (ReadersOk.reachable ⟨actions, hrun⟩).returns
    (by rw [hversions]; exact hfew)
  rw [← hversions]
  exact ⟨hok.value, hok.ordered⟩

/-- A stale read, and a torn copy that the fence makes the reader discard. -/
theorem reads_single_version_torn :
    exists s, (viewMachine Bool (fun _ : Fin 2 => 0)).run
        ([ViewAction.writeCall (fun _ => 7) 0, ViewAction.writeStoreOdd,
          ViewAction.writeFence, ViewAction.writeWord 1,
          ViewAction.writeWord 0, ViewAction.writeStoreEven] ++
        [ViewReadAction.call, ViewReadAction.loadSeq 0,
          ViewReadAction.loadWord 0 0, ViewReadAction.loadWord 1 1,
          ViewReadAction.fence, ViewReadAction.loadSeq 1,
          ViewReadAction.loadSeq 2, ViewReadAction.loadWord 0 1,
          ViewReadAction.loadWord 1 1, ViewReadAction.fence,
          ViewReadAction.loadSeq 2].map (ViewAction.read true) ++
        [ViewReadAction.call, ViewReadAction.loadSeq 0,
          ViewReadAction.loadWord 0 0, ViewReadAction.loadWord 1 0,
          ViewReadAction.fence, ViewReadAction.loadSeq 0].map
            (ViewAction.read false)) = some s ∧
      s.returns.map (fun e => (e.reader, e.value 0, e.value 1, e.version)) =
        [(true, 7, 7, 1), (false, 0, 0, 0)] ∧
      (forall e, e ∈ s.returns ->
        [fun _ : Fin 2 => 0, fun _ => 7][e.version]? = some e.value) ∧
      s.returns.Pairwise
        (fun e₁ e₂ => e₁.reader = e₂.reader -> e₁.version ≤ e₂.version) := by
  apply Machine.exists_run_of_map
    (fun s => s.returns.map
      (fun e => (e.reader, e.value 0, e.value 1, e.version)))
    [(true, 7, 7, 1), (false, 0, 0, 0)] (by decide +kernel)
  intro s hrun hshown
  exact ⟨hshown, reads_single_version hrun (by decide)⟩

end ViewSystem
end Seqlock
end LowLatency
