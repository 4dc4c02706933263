import LowLatency.Spmc.Accounting
import LowLatency.Spmc.ViewSystem

/-!
# Accounting under weak memory

A consumer only moves its cursor to values of `write_cursor` that are not older
than those it has acquired, so its cursor never moves back, whichever stores of
`seq` its loads return.
-/

namespace LowLatency
namespace Spmc

open Foundation

def PublishPc.wPos? {W m : Nat} {Word : Type _} :
    PublishPc W m Word -> Option (BitVec W)
  | PublishPc.idle => none
  | PublishPc.storeOdd wPos _ => some wPos
  | PublishPc.writeData wPos _ _ => some wPos
  | PublishPc.storeCursor wPos => some wPos

namespace ViewSystem

variable {W : Nat} {cap : Capacity W} {m : Nat} {Word : Type _}
variable {s s' : ViewSystem cap m Word}

/-!
## Views of `write_cursor`
-/

/-- No store carries more than `n` stores of `write_cursor`. -/
def Carried (memory : ViewMemory (Location cap) (fun _ => BitVec W)) (n : Nat) :
    Prop :=
  forall loc, (memory loc).Each (fun _ msg =>
    msg.view Location.writeCursor ≤ n)

theorem Carried.append {memory : ViewMemory (Location cap) (fun _ => BitVec W)}
    {n n' : Nat} (hc : Carried memory n) (hle : n ≤ n') (loc : Location cap)
    {msg : Message (Location cap) (BitVec W)}
    (hmsg : msg.view Location.writeCursor ≤ n') :
    Carried (memory.append loc msg) n' := by
  have hold : memory.Each (fun _ _ msg =>
      msg.view Location.writeCursor ≤ n') :=
    fun loc => (hc loc).mono (fun _ _ h => Nat.le_trans h hle)
  exact hold.append hmsg

structure Stores (s : ViewSystem cap m Word) : Prop where
  cursor : (s.memory Location.writeCursor).Each (fun n msg =>
    msg.value = BitVec.ofNat W n)
  carried : Carried s.memory s.completed
  current : s.producer.current Location.writeCursor = s.completed
  released : s.producer.released Location.writeCursor ≤ s.completed
  wPos : forall wPos, s.publishPc.wPos? = some wPos ->
    wPos = BitVec.ofNat W s.completed

namespace Stores

theorem new (cap : Capacity W) (m : Nat) (Word : Type _) :
    Stores (ViewSystem.new cap m Word) where
  cursor := StoreHistory.each_initial rfl
  carried _ := StoreHistory.each_initial (Nat.le_refl 0)
  current := rfl
  released := Nat.le_refl 0
  wPos _ h := by cases h

theorem storeSeq (hs : Stores s) {j : Fin cap.size}
    {msg : Message (Location cap) (BitVec W)}
    (hmsg : msg.view Location.writeCursor ≤ s.completed)
    {producer : ThreadView (Location cap)}
    (hcurrent : producer.current Location.writeCursor = s.completed)
    (hreleased : producer.released Location.writeCursor ≤ s.completed)
    {pc : PublishPc W m Word} (hpc : pc.wPos? = s.publishPc.wPos?) :
    Stores { s with
      memory := s.memory.append (Location.seq j) msg
      producer := producer
      publishPc := pc } := by
  have hsame : s.memory.append (Location.seq j) msg Location.writeCursor =
      s.memory Location.writeCursor :=
    ViewMemory.append_of_ne _ _ (Location.writeCursor_ne_seq j)
  have hcompleted : completed { s with
      memory := s.memory.append (Location.seq j) msg
      producer := producer
      publishPc := pc } = s.completed :=
    congrArg StoreHistory.lastIndex hsame
  constructor
  · exact hsame ▸ hs.cursor
  · rw [hcompleted]
    exact hs.carried.append (Nat.le_refl _) _ hmsg
  · rw [hcompleted]
    exact hcurrent
  · rw [hcompleted]
    exact hreleased
  · intro wPos hwPos
    rw [hcompleted]
    exact hs.wPos wPos (hpc ▸ hwPos)

theorem sup_single_seq (view : View (Location cap)) (j : Fin cap.size)
    (k : Nat) : (view ⊔ View.single (Location.seq j) k) Location.writeCursor =
      view Location.writeCursor := by
  rw [Pi.sup_apply, View.single_of_ne (Location.writeCursor_ne_seq j)]
  exact Nat.max_eq_left (Nat.zero_le _)

theorem publishCall (hs : Stores s) {value : Payload m Word} {n : Nat}
    (h : s.publishCall value n = some s') : Stores s' := by
  rcases publishCall_inv h with ⟨wPos, _, hload, rfl⟩
  rcases hs.cursor.load hload with ⟨hseen, hlast, hvalue⟩
  have hn : n = s.completed := by
    rw [hs.current] at hseen
    exact Nat.le_antisymm hlast hseen
  refine ⟨hs.cursor, hs.carried, ?_, hs.released, ?_⟩
  · change max (s.producer.current Location.writeCursor)
      (View.single Location.writeCursor n Location.writeCursor) = s.completed
    rw [View.single_self, hs.current, hn]
    exact Nat.max_self _
  · intro wPos' hwPos
    cases hwPos
    rw [hvalue, hn]
    rfl

theorem publishStoreOdd (hs : Stores s) (h : s.publishStoreOdd = some s') :
    Stores s' := by
  rcases publishStoreOdd_inv h with ⟨wPos, value, hpc, rfl⟩
  have hcurrent := sup_single_seq s.producer.current (cap.slotIndex wPos)
    (s.memory.next (Location.seq (cap.slotIndex wPos)))
  rw [hs.current] at hcurrent
  refine hs.storeSeq ?_ hcurrent (Nat.le_of_eq hcurrent) ?_
  · exact Nat.le_trans (Nat.le_of_eq (sup_single_seq _ _ _)) hs.released
  · rw [hpc]
    rfl

theorem publishStoreEven (hs : Stores s) (h : s.publishStoreEven = some s') :
    Stores s' := by
  rcases publishStoreEven_inv h with ⟨wPos, value, written, hpc, rfl⟩
  have hcurrent := sup_single_seq s.producer.current (cap.slotIndex wPos)
    (s.memory.next (Location.seq (cap.slotIndex wPos)))
  rw [hs.current] at hcurrent
  have hreleased : (s.memory.storeRelease s.producer
      (Location.seq (cap.slotIndex wPos)) (wPos * 2#W + 2#W)).2.released
        Location.writeCursor ≤ s.completed := hs.released
  refine hs.storeSeq ?_ hcurrent hreleased ?_
  · exact Nat.le_of_eq hcurrent
  · rw [hpc]
    rfl

theorem publishStoreCursor (hs : Stores s)
    (h : s.publishStoreCursor = some s') : Stores s' := by
  rcases publishStoreCursor_inv h with ⟨wPos, hpc, rfl⟩
  have hwPos := hs.wPos wPos (by rw [hpc]; rfl)
  subst hwPos
  have hview : (s.producer.current ⊔ View.single Location.writeCursor
      (s.completed + 1)) Location.writeCursor = s.completed + 1 := by
    rw [Pi.sup_apply, View.single_self, hs.current]
    exact Nat.max_eq_right (Nat.le_succ _)
  have hcompleted : forall msg producer pc, completed { s with
      memory := s.memory.append Location.writeCursor msg
      producer := producer
      publishPc := pc } = s.completed + 1 :=
    fun msg _ _ => ViewMemory.lastIndex_append_self s.memory
      Location.writeCursor msg
  constructor
  · simp only [ViewMemory.storeRelease, ViewMemory.append_self]
    exact hs.cursor.store (BitVec.ofNat_add_ofNat _ 1)
  · simp only [ViewMemory.storeRelease, hcompleted]
    exact hs.carried.append (Nat.le_succ _) _ (Nat.le_of_eq hview)
  · simp only [ViewMemory.storeRelease, hcompleted]
    exact hview
  · simp only [ViewMemory.storeRelease, hcompleted]
    exact Nat.le_trans hs.released (Nat.le_succ _)
  · intro _ hidle
    cases hidle

theorem setReader (hs : Stores s) (c : Nat) (r : ViewReader cap m Word) :
    Stores (s.setReader c r) :=
  ⟨hs.cursor, hs.carried, hs.current, hs.released, hs.wPos⟩

theorem step (hs : Stores s) {a : ViewAction m Word}
    (h : s.step a = some s') : Stores s' := by
  cases a with
  | publishCall value n => exact hs.publishCall h
  | publishStoreOdd => exact hs.publishStoreOdd h
  | publishWriteWord i =>
      rcases publishWriteWord_inv h with ⟨wPos, value, written, hpc, rfl⟩
      refine ⟨hs.cursor, hs.carried, hs.current, hs.released, ?_⟩
      intro wPos' hwPos
      cases hwPos
      exact hs.wPos wPos (by rw [hpc]; rfl)
  | publishStoreEven => exact hs.publishStoreEven h
  | publishStoreCursor => exact hs.publishStoreCursor h
  | read c a =>
      rcases read_inv h with ⟨_, r', _, _, rfl⟩
      exact hs.setReader c r'
  | clone parent child =>
      rcases clone_inv h with ⟨_, _, _, _, _, rfl⟩
      exact hs.setReader child _

theorem reachable (hs : (viewMachine cap m Word).Reachable s) : Stores s :=
  hs.invariant (Stores.new cap m Word) (fun _ _ _ hs h => hs.step h)

end Stores

/-!
## One consumer
-/

structure ReaderOk (n : Nat) (r : ViewReader cap m Word) : Prop where
  cursors : r.reader.Cursors (r.view Location.writeCursor)
  visible : r.view Location.writeCursor ≤ n
  accounted : r.reader.Accounted

namespace ReaderOk

variable {n : Nat} {r r' : ViewReader cap m Word}

theorem mono (hr : ReaderOk n r) {n' : Nat} (hle : n ≤ n') : ReaderOk n' r :=
  ⟨hr.cursors, Nat.le_trans hr.visible hle, hr.accounted⟩

theorem acquire_le {view : View (Location cap)} {loc : Location cap}
    {i : Nat} {msg : Message (Location cap) (BitVec W)}
    (hview : view Location.writeCursor ≤ n)
    (hi : View.single loc i Location.writeCursor ≤ n)
    (hmsg : msg.view Location.writeCursor ≤ n) :
    acquire view loc i msg Location.writeCursor ≤ n :=
  Nat.max_le.mpr ⟨hview, Nat.max_le.mpr ⟨hi, hmsg⟩⟩

theorem le_acquire (view : View (Location cap)) (loc : Location cap)
    (i : Nat) (msg : Message (Location cap) (BitVec W)) :
    view Location.writeCursor ≤ acquire view loc i msg Location.writeCursor :=
  Nat.le_max_left _ _

theorem loadWriteCursor (hs : Stores s) (hr : ReaderOk s.completed r) {k : Nat}
    (h : s.readStep r (ViewReadAction.loadWriteCursor k) = some r') :
    ReaderOk s.completed r' := by
  rcases loadWriteCursor_inv h with ⟨msg, reader, hload, hgot, rfl⟩
  rcases hs.cursor.load hload with ⟨hseen, hlast, hvalue⟩
  have hmsg := ((hs.carried Location.writeCursor).load hload).right.right
  rw [hvalue] at hgot
  refine ⟨?_, ?_, hr.accounted.gotWriteCursor hr.cursors hseen hlast hgot⟩
  · apply (hr.cursors.gotWriteCursor hseen hgot).mono
    exact View.single_le_iff.mp (le_sup_of_le_right le_sup_left)
  · refine acquire_le hr.visible ?_ hmsg
    rw [View.single_self]
    exact hlast

theorem loadSeq (hs : Stores s) (hr : ReaderOk s.completed r) {k : Nat}
    (h : s.readStep r (ViewReadAction.loadSeq k) = some r') :
    ReaderOk s.completed r' := by
  rcases loadSeq_inv h with ⟨msg, reader, hload, hgot, rfl⟩
  have hmsg := ((hs.carried _).load hload).right.right
  have hcursors := hr.cursors.gotSeq hgot
  have haccounted := hr.accounted.gotSeq hgot
  unfold afterSeq
  split
  · refine ⟨hcursors.mono (le_acquire _ _ _ _), ?_, haccounted⟩
    refine acquire_le hr.visible ?_ hmsg
    rw [View.single_of_ne (Location.writeCursor_ne_seq _)]
    exact Nat.zero_le _
  · exact ⟨hcursors, hr.visible, haccounted⟩

theorem readStep (hs : Stores s) (hr : ReaderOk s.completed r)
    {a : ViewReadAction m Word} (h : s.readStep r a = some r') :
    ReaderOk s.completed r' := by
  cases a with
  | call =>
      rcases Option.map_eq_some_iff.mp h with ⟨reader, hcall, rfl⟩
      exact ⟨hr.cursors.beginCall hcall, hr.visible,
        hr.accounted.beginCall hcall⟩
  | loadWriteCursor k => exact hr.loadWriteCursor hs h
  | loadSeq k => exact hr.loadSeq hs h
  | loadWord i word =>
      rcases Option.map_eq_some_iff.mp h with ⟨reader, hgot, rfl⟩
      exact ⟨hr.cursors.gotWord hgot, hr.visible, hr.accounted.gotWord hgot⟩

theorem position_le (hs : Stores s) (hr : ReaderOk s.completed r)
    {a : ViewReadAction m Word} (h : s.readStep r a = some r') :
    r.reader.position ≤ r'.reader.position := by
  cases a with
  | call =>
      rcases Option.map_eq_some_iff.mp h with ⟨reader, hcall, rfl⟩
      rcases Reader.beginCall_inv hcall with ⟨_, rfl⟩
      exact Nat.le_refl _
  | loadWriteCursor k =>
      rcases loadWriteCursor_inv h with ⟨msg, reader, hload, hgot, rfl⟩
      exact Reader.gotWriteCursor_position_le hr.cursors
        (hs.cursor.load hload).left hgot
  | loadSeq k =>
      rcases loadSeq_inv h with ⟨msg, reader, _, hgot, rfl⟩
      exact Reader.gotSeq_position_le hgot
  | loadWord i word =>
      rcases Option.map_eq_some_iff.mp h with ⟨reader, hgot, rfl⟩
      rcases Reader.gotWord_inv hgot with ⟨_, _, _, _, rfl⟩
      exact Nat.le_refl _

end ReaderOk

/-!
## All consumers
-/

theorem completed_le {a : ViewAction m Word} (h : s.step a = some s') :
    s.completed ≤ s'.completed := by
  cases a with
  | publishCall value n =>
      rcases publishCall_inv h with ⟨_, _, _, rfl⟩
      exact Nat.le_refl _
  | publishStoreOdd =>
      rcases publishStoreOdd_inv h with ⟨_, _, _, rfl⟩
      exact ViewMemory.lastIndex_le_append _ _ _ _
  | publishWriteWord i =>
      rcases publishWriteWord_inv h with ⟨_, _, _, _, rfl⟩
      exact Nat.le_refl _
  | publishStoreEven =>
      rcases publishStoreEven_inv h with ⟨_, _, _, _, rfl⟩
      exact ViewMemory.lastIndex_le_append _ _ _ _
  | publishStoreCursor =>
      rcases publishStoreCursor_inv h with ⟨_, _, rfl⟩
      exact ViewMemory.lastIndex_le_append _ _ _ _
  | read c a =>
      rcases read_inv h with ⟨_, _, _, _, rfl⟩
      exact Nat.le_refl _
  | clone parent child =>
      rcases clone_inv h with ⟨_, _, _, _, _, rfl⟩
      exact Nat.le_refl _

def Readers (s : ViewSystem cap m Word) : Prop :=
  forall c r, s.readers c = some r -> ReaderOk s.completed r

namespace Readers

theorem new (cap : Capacity W) (m : Nat) (Word : Type _) :
    Readers (ViewSystem.new cap m Word) := by
  intro c r hr
  rw [readers_new hr]
  exact ⟨Reader.Cursors.new _, Nat.le_refl 0, Reader.Accounted.new W m Word⟩

theorem step (hstores : Stores s) (hs : Readers s) {a : ViewAction m Word}
    (h : s.step a = some s') : Readers s' := by
  have hle := completed_le h
  intro c r' hr'
  rcases step_readers h hr' with hold | ⟨r, b, hr, hstep⟩ |
    ⟨parent, r, reader, hr, _, hclone, rfl⟩
  · exact (hs c r' hold).mono hle
  · exact ((hs c r hr).readStep hstores hstep).mono hle
  · have hok := hs parent r hr
    have hcloned : ReaderOk s.completed ⟨reader, r.view⟩ :=
      ⟨hok.cursors.clone hclone, hok.visible, Reader.Accounted.clone hclone⟩
    exact hcloned.mono hle

theorem reachable (hs : (viewMachine cap m Word).Reachable s) : Readers s :=
  hs.invariant_of_reachable (P := Readers) (Readers.new cap m Word)
    (fun _ _ _ hreach hr h => Readers.step (Stores.reachable hreach) hr h)

end Readers

theorem position_le (hstores : Stores s) (hs : Readers s)
    {a : ViewAction m Word} (h : s.step a = some s') {c : Nat}
    {r r' : ViewReader cap m Word} (hr : s.readers c = some r)
    (hr' : s'.readers c = some r') :
    r.reader.position ≤ r'.reader.position := by
  rcases step_readers h hr' with hold | ⟨r₀, b, hr₀, hstep⟩ |
    ⟨_, _, _, _, hnone, _⟩
  · rw [hr] at hold
    cases hold
    exact Nat.le_refl _
  · rw [hr] at hr₀
    cases hr₀
    exact (hs c r hr).position_le hstores hstep
  · rw [hr] at hnone
    cases hnone

/--
While the lag stays below `2 ^ (W - 1)`, every position that the cursor passes
is either a value or counted as skipped, and the values come in increasing
order with their gaps reported.  Whatever the lag, the cursor never moves back,
and the cursor words count positions with `read_cursor` not beyond
`cached_write_cursor` not beyond `write_cursor`.
-/
theorem accounting (hreach : (viewMachine cap m Word).Reachable s) {c : Nat}
    {r : ViewReader cap m Word} (hr : s.readers c = some r) :
    (r.reader.LagBelow (2 ^ (W - 1)) ->
      r.reader.position =
        r.reader.start + valueCount r.reader.log + skippedSum r.reader.log ∧
      (valuePositions r.reader.log).Pairwise (fun p q => p < q) ∧
      (forall before e mid e' after,
        r.reader.log = before ++ e :: (mid ++ e' :: after) ->
        e.isValue = true -> e'.isValue = true -> valueCount mid = 0 ->
        e.position < e'.position ∧
          skippedSum mid = e'.position - e.position - 1)) ∧
    (forall a s' r', s.step a = some s' -> s'.readers c = some r' ->
      r.reader.position ≤ r'.reader.position) ∧
    r.reader.thread.state =
      ⟨BitVec.ofNat W r.reader.position,
        BitVec.ofNat W r.reader.cachedPosition⟩ ∧
    (s.memory Location.writeCursor).current.value =
      BitVec.ofNat W s.completed ∧
    r.reader.position ≤ r.reader.cachedPosition ∧
    r.reader.cachedPosition ≤ s.completed := by
  have hstores := Stores.reachable hreach
  have hreaders := Readers.reachable hreach
  have hok := hreaders c r hr
  refine ⟨?_, ?_, hok.cursors.state,
    hstores.cursor _ _ (StoreHistory.read?_lastIndex _),
    hok.cursors.position_le,
    Nat.le_trans hok.cursors.cached_le hok.visible⟩
  · intro hlag
    have hhalf : 2 ^ (W - 1) ≤ 2 ^ W :=
      Nat.pow_le_pow_right Nat.two_pos (Nat.sub_le W 1)
    have hchain := hok.accounted (hlag.mono hhalf)
    refine ⟨hchain.total, hchain.positions_increasing, ?_⟩
    intro before e mid e' after hlog he _ hmid
    rw [hlog] at hchain
    have hgap := hchain.gap he hmid
    lia
  · intro a s' r' hstep hr'
    exact position_le hstores hreaders hstep hr hr'

def publishAll (v n : Nat) : List (ViewAction 1 Nat) :=
  [ViewAction.publishCall (fun _ => v) n, ViewAction.publishStoreOdd,
    ViewAction.publishWriteWord 0, ViewAction.publishStoreEven,
    ViewAction.publishStoreCursor]

/-- A stale `write_cursor`, a value, a lap, and a value, in one slot. -/
theorem accounting_stale_and_lapped :
    exists s, (viewMachine (⟨1#3, 0, rfl⟩ : Capacity 3) 1 Nat).run
        (publishAll 10 0 ++
          ([ViewReadAction.call, ViewReadAction.loadWriteCursor 0,
            ViewReadAction.call, ViewReadAction.loadWriteCursor 1,
            ViewReadAction.loadSeq 2, ViewReadAction.loadWord 0 10,
            ViewReadAction.loadSeq 2].map (ViewAction.read 0)) ++
          publishAll 11 1 ++ publishAll 12 2 ++
          ([ViewReadAction.call, ViewReadAction.loadWriteCursor 2,
            ViewReadAction.loadSeq 6, ViewReadAction.loadWriteCursor 3,
            ViewReadAction.call, ViewReadAction.loadSeq 6,
            ViewReadAction.loadWord 0 12,
            ViewReadAction.loadSeq 6].map (ViewAction.read 0))) = some s ∧
      exists r, s.readers 0 = some r ∧ r.reader.position = 3 ∧
        r.reader.position = r.reader.start + valueCount r.reader.log +
          skippedSum r.reader.log := by
  apply Machine.exists_run_of_map
    (fun s => (s.readers 0).map (fun r => (r.reader.position,
      r.reader.log.all (fun e =>
        decide (e.progress.completed < e.position + 2 ^ (3 - 1))))))
    (some (3, true)) (by decide +kernel)
  intro s hrun hshown
  rcases Option.map_eq_some_iff.mp hshown with ⟨r, hr, hfields⟩
  rcases Prod.mk.inj hfields with ⟨hposition, hall⟩
  have hlag : r.reader.LagBelow (2 ^ (3 - 1)) := by
    intro e he
    exact of_decide_eq_true (List.all_eq_true.mp hall e he)
  exact ⟨r, hr, hposition, ((accounting ⟨_, hrun⟩ hr).left hlag).left⟩

end ViewSystem
end Spmc
end LowLatency
