import LowLatency.Spmc.RelaxedStores
import LowLatency.Spmc.Loss

/-!
# Reads of the ring under weak memory

A consumer that has acquired `write_cursor` is bound to see the even stores of
all positions before it.  It can therefore only find the `seq` of its own
position or one of a later lap, and a copy that mixes in a later lap is given
away by the second load of `seq`.
-/

namespace LowLatency
namespace Spmc

open Foundation

variable {W : Nat} {cap : Capacity W} {m : Nat} {Word : Type}

/-!
## Stores of a slot
-/

theorem even_stamp {j : Fin cap.size} {k : Nat}
    (heven : BitVec.ofNat W (stamp cap j k) &&& 1#W ≠ 1#W) (hk : 0 < k) :
    exists u, k = 2 * u + 2 := by
  rcases Nat.mod_two_eq_zero_or_one k with hk2 | hk2
  · exact ⟨k / 2 - 1, by lia⟩
  · rw [show k = 2 * (k / 2) + 1 by lia, stamp_odd] at heven
    exact absurd (Words.odd_test_odd cap.width_pos _) heven

theorem le_positionAt {p u : Nat} (h : p / cap.size ≤ u) :
    p ≤ cap.positionAt (cap.slotOf p) u := by
  rw [← Nat.not_lt]
  nth_rewrite 2 [← cap.positionAt_slotOf p]
  rw [cap.positionAt_lt_iff]
  exact Nat.not_lt.mpr h

theorem lap_eq {p u : Nat} (hle : p / cap.size ≤ u)
    (hlt : cap.positionAt (cap.slotOf p) u < p + 2 ^ (W - 1))
    (h : BitVec.ofNat W (2 * p + 2) =
      BitVec.ofNat W (2 * cap.positionAt (cap.slotOf p) u + 2)) :
    u = p / cap.size := by
  have hp : p ≤ cap.positionAt (cap.slotOf p) u := le_positionAt hle
  have heq := Words.eq_of_ofNat_two_mul_eq cap.width_pos
    (show p + 1 ≤ cap.positionAt (cap.slotOf p) u + 1 by lia) (by lia) h
  apply cap.positionAt_inj
  rw [cap.positionAt_slotOf]
  exact (Nat.succ.inj heq).symm

theorem overwritten_of_lap {p u stamped : Nat} (hlt : p / cap.size < u)
    (hstamped : cap.positionAt (cap.slotOf p) u < stamped) :
    System.Overwritten cap stamped p := by
  refine ⟨cap.positionAt (cap.slotOf p) u, ?_, ?_, hstamped⟩
  · rw [← Capacity.slotOf_eq_iff, cap.slotOf_positionAt]
  · apply lap_of_modEq
    · rw [← Capacity.slotOf_eq_iff, cap.slotOf_positionAt]
    · nth_rewrite 1 [← cap.positionAt_slotOf p]
      exact cap.positionAt_lt_iff.mpr hlt

namespace RelaxedSystem

variable {s s' : RelaxedSystem cap m Word}

/-!
## One consumer
-/

def stamped (s : RelaxedSystem cap m Word) : Nat :=
  s.completed + s.publishPc.stamped

structure CopyOk (published : List (Payload m Word)) (j : Fin cap.size)
    (view : ThreadView (Place cap m)) (seqIndex u : Nat) (seq1 : BitVec W)
    (copied : Fin m -> Option Word) : Prop where
  index : seqIndex = 2 * u + 2
  seq1 : seq1 = BitVec.ofNat W (stamp cap j seqIndex)
  seen : seqIndex ≤ view.current (Place.seq j)
  bound : (Place.slot j).Bound (u + 1) view.current
  copied : forall w word, copied w = some word -> exists v,
    WordOk published j w v word ∧
      (Place.slot j).Copied (2 * (u + 1)) v view.acquired

def PcOk (published : List (Payload m Word)) (stamped : Nat)
    (view : ThreadView (Place cap m)) (seqIndex position : Nat) :
    ReadPc W m Word -> Prop
  | ReadPc.readData seq1 copied =>
      exists u, position / cap.size ≤ u ∧
        CopyOk published (cap.slotOf position) view seqIndex u seq1 copied
  | ReadPc.reloadWriteCursor => System.Overwritten cap stamped position
  | _ => True

structure RecordOk (cap : Capacity W) (published : List (Payload m Word))
    (e : ReadRecord W m Word) : Prop where
  progress : e.progress.completed ≤ e.progress.stamped ∧
    e.progress.stamped ≤ e.progress.begun
  value : forall v, e.result = ReadResult.value v ->
    e.progress.begun ≤ e.position + 2 ^ (W - 1) ->
      published[e.position]? = some v
  lapped : forall skipped, e.result = ReadResult.lapped skipped ->
    System.Overwritten cap e.progress.stamped e.position

structure ReaderOk (s : RelaxedSystem cap m Word)
    (r : RelaxedReader cap m Word) : Prop where
  knows : s.memory.Knows r.view
  cursors : r.reader.Cursors (r.view.current Place.writeCursor)
  accounted : r.reader.Accounted
  stamped : Stamped cap r.reader.cachedPosition r.view.current
  pc : PcOk s.published s.stamped r.view r.seqIndex r.reader.position
    r.reader.thread.pc
  log : forall e, e ∈ r.reader.log -> RecordOk cap s.published e

structure Advances (s s' : RelaxedSystem cap m Word) : Prop where
  completed : s.completed ≤ s'.completed
  stamped : s.stamped ≤ s'.stamped
  published : forall (p : Nat) (value : Payload m Word),
    s.published[p]? = some value -> s'.published[p]? = some value
  knows : forall t, s.memory.Knows t -> s'.memory.Knows t

theorem Advances.setReader (s : RelaxedSystem cap m Word) (c : Nat)
    (r : RelaxedReader cap m Word) : Advances s (s.setReader c r) :=
  ⟨Nat.le_refl _, Nat.le_refl _, fun _ _ h => h, fun _ h => h⟩

theorem Advances.append {place : Place cap m}
    {msg : Message (Place cap m) (Place.Val Word place)}
    {producer : ThreadView (Place cap m)} {pc : PublishPc W m Word}
    (hplace : place ≠ Place.writeCursor)
    (hpc : s.publishPc.stamped ≤ pc.stamped) :
    Advances s { s with
      memory := s.memory.append place msg
      producer := producer
      publishPc := pc } := by
  have hcompleted : RelaxedSystem.completed { s with
      memory := s.memory.append place msg
      producer := producer
      publishPc := pc } = s.completed :=
    Stores.completed_append s.memory hplace msg
  refine ⟨Nat.le_of_eq hcompleted.symm, ?_, fun _ _ h => h,
    fun t ht => ht.append place msg⟩
  rw [RelaxedSystem.stamped, RelaxedSystem.stamped, hcompleted]
  exact Nat.add_le_add_left hpc _

theorem Advances.step {a : RelaxedAction m Word} (h : s.step a = some s') :
    Advances s s' := by
  cases a with
  | publishCall value n =>
      rcases publishCall_inv h with ⟨msg, hpc, _, rfl⟩
      refine ⟨Nat.le_refl _, ?_, ?_, fun _ ht => ht⟩
      · rw [RelaxedSystem.stamped, hpc]
        exact Nat.le_refl _
      · intro p v hget
        exact getElem?_append_of_eq_some hget _
  | publishStoreOdd =>
      rcases publishStoreOdd_inv h with ⟨wPos, value, hpc, rfl⟩
      exact Advances.append (by intro hne; cases hne) (by rw [hpc]; rfl)
  | publishWriteWord w =>
      rcases publishWriteWord_inv h with ⟨wPos, value, written, hpc, _, rfl⟩
      exact Advances.append (by intro hne; cases hne) (by rw [hpc]; rfl)
  | publishStoreEven =>
      rcases publishStoreEven_inv h with ⟨wPos, value, written, hpc, _, rfl⟩
      exact Advances.append (by intro hne; cases hne)
        (by rw [hpc]; exact Nat.zero_le _)
  | publishStoreCursor =>
      rcases publishStoreCursor_inv h with ⟨wPos, hpc, rfl⟩
      have hcompleted : forall msg producer, RelaxedSystem.completed { s with
          memory := s.memory.append Place.writeCursor msg
          producer := producer
          publishPc := PublishPc.idle } = s.completed + 1 :=
        fun msg _ => ViewMemory.lastIndex_append_self s.memory
          Place.writeCursor msg
      refine ⟨?_, ?_, fun _ _ hget => hget, fun _ ht => ht.append _ _⟩
      · simp only [ViewMemory.storeRelease, hcompleted]
        exact Nat.le_succ _
      · simp only [ViewMemory.storeRelease, RelaxedSystem.stamped, hcompleted,
          hpc]
        exact Nat.le_refl _
  | read c a =>
      rcases read_inv h with ⟨_, _, _, _, rfl⟩
      exact Advances.setReader s _ _
  | clone parent child =>
      rcases clone_inv h with ⟨_, _, _, _, _, rfl⟩
      exact Advances.setReader s _ _
  | hear c source =>
      rcases hear_inv h with ⟨_, _, _, _, _, rfl⟩
      exact Advances.setReader s _ _

theorem WordOk.advance (ha : Advances s s') {j : Fin cap.size} {w : Fin m}
    {v : Nat} {word : Word} (h : WordOk s.published j w v word) :
    WordOk s'.published j w v word := by
  intro lap hlap
  rcases h lap hlap with ⟨value, hget, hword⟩
  exact ⟨value, ha.published _ _ hget, hword⟩

theorem RecordOk.advance {e : ReadRecord W m Word} (ha : Advances s s')
    (he : RecordOk cap s.published e) : RecordOk cap s'.published e :=
  { he with
    value := fun v hvalue hbegun =>
      ha.published _ _ (he.value v hvalue hbegun) }

theorem CopyOk.mono {published published' : List (Payload m Word)}
    {j : Fin cap.size} {view view' : ThreadView (Place cap m)}
    {seqIndex u : Nat} {seq1 : BitVec W} {copied : Fin m -> Option Word}
    (h : CopyOk published j view seqIndex u seq1 copied)
    (hwords : forall w v word, WordOk published j w v word ->
      WordOk published' j w v word)
    (hcurrent : view.current ≤ view'.current)
    (hacquired : view.acquired ≤ view'.acquired) :
    CopyOk published' j view' seqIndex u seq1 copied := by
  refine ⟨h.index, h.seq1, Nat.le_trans h.seen (hcurrent _),
    h.bound.mono hcurrent, ?_⟩
  intro w word hword
  rcases h.copied w word hword with ⟨v, hok, hcopied⟩
  exact ⟨v, hwords w v word hok, hcopied.mono hacquired⟩

theorem progress_ordered (hs : Stores s) :
    s.progress.completed ≤ s.progress.stamped ∧
      s.progress.stamped ≤ s.progress.begun := by
  have hlength := hs.length
  have hopened := s.publishPc.opened_le_begun
  have hstamped := s.publishPc.stamped_le_opened
  exact ⟨Nat.le_add_right _ _, by dsimp only [progress]; lia⟩

namespace ReaderOk

variable {r r' : RelaxedReader cap m Word}

theorem advance (ha : Advances s s') (hr : ReaderOk s r) : ReaderOk s' r := by
  refine ⟨ha.knows _ hr.knows, hr.cursors, hr.accounted, hr.stamped, ?_,
    fun e he => (hr.log e he).advance ha⟩
  have hpc := hr.pc
  cases hkind : r.reader.thread.pc with
  | idle => exact trivial
  | loadWriteCursor => exact trivial
  | loadSeq => exact trivial
  | readData seq1 copied =>
      rw [hkind] at hpc
      rcases hpc with ⟨u, hu, hcopy⟩
      exact ⟨u, hu, hcopy.mono (fun _ _ _ => WordOk.advance ha)
        (le_refl _) (le_refl _)⟩
  | reloadWriteCursor =>
      rw [hkind] at hpc
      exact hpc.mono ha.stamped

theorem new [Zero Word] (s : RelaxedSystem cap m Word) :
    ReaderOk s ⟨Reader.new W m Word, ThreadView.start (Place cap m), 0⟩ where
  knows := ViewMemory.knows_start _
  cursors := Reader.Cursors.new _
  accounted := Reader.Accounted.new W m Word
  stamped p hp := absurd hp (Nat.not_lt_zero p)
  pc := trivial
  log _ he := absurd he List.not_mem_nil

theorem clone (hr : ReaderOk s r) {reader : Reader W m Word}
    (h : r.reader.clone = some reader) :
    ReaderOk s ⟨reader, r.view.handOver, r.seqIndex⟩ := by
  have hcursors := hr.cursors.clone h
  have haccounted := Reader.Accounted.clone h
  rcases Reader.clone_inv h with ⟨hpc, rfl⟩
  refine ⟨hr.knows.handOver, hcursors, haccounted, hr.stamped, ?_, ?_⟩
  · dsimp only
    rw [hpc]
    exact trivial
  · intro e he
    exact absurd he List.not_mem_nil

theorem hear (hr : ReaderOk s r) {view : View (Place cap m)}
    (hview : s.memory.Covers view) (hpc : r.reader.thread.pc = ReadPc.idle) :
    ReaderOk s { r with view := r.view.hear view } := by
  refine ⟨hr.knows.hear hview, ?_, hr.accounted, ?_, ?_, hr.log⟩
  · exact hr.cursors.mono (r.view.current_le_hear view Place.writeCursor)
  · exact hr.stamped.mono (r.view.current_le_hear view)
  · dsimp only
    rw [hpc]
    exact trivial

theorem call (hr : ReaderOk s r)
    (h : s.readStep r RelaxedReadAction.call = some r') : ReaderOk s r' := by
  rcases call_inv h with ⟨reader, hcall, rfl⟩
  have hcursors := hr.cursors.beginCall hcall
  have haccounted := hr.accounted.beginCall hcall
  rcases Reader.beginCall_inv hcall with ⟨hpc, rfl⟩
  refine ⟨hr.knows.handOver, hcursors, haccounted, hr.stamped, ?_, hr.log⟩
  dsimp only
  split <;> exact trivial

theorem log_append (hr : ReaderOk s r) {e : ReadRecord W m Word}
    (he : RecordOk cap s.published e) :
    forall e', e' ∈ r.reader.log ++ [e] -> RecordOk cap s.published e' := by
  intro e' hmem
  rcases List.mem_append.mp hmem with hold | hnew
  · exact hr.log e' hold
  · rw [List.mem_singleton.mp hnew]
    exact he

theorem loadWriteCursor (hs : Stores s) (hr : ReaderOk s r) {n : Nat}
    (h : s.readStep r (RelaxedReadAction.loadWriteCursor n) = some r') :
    ReaderOk s r' := by
  rcases loadWriteCursor_inv h with ⟨msg, reader, hload, hgot, rfl⟩
  rcases hs.each.load hload with ⟨hseen, hlast, hvalue, hstamped⟩
  rw [hvalue] at hgot
  have hcursors := (hr.cursors.gotWriteCursor hseen hgot).mono
    (r.view.index_le_loadAcquire Place.writeCursor n msg)
  have haccounted := hr.accounted.gotWriteCursor hr.cursors hseen hlast hgot
  have hknows := hr.knows.load_acquire hs.grounded hload
  have hview := hstamped.mono
    (r.view.view_le_loadAcquire Place.writeCursor n msg)
  have hpc := hr.pc
  rcases Reader.gotWriteCursor_inv hgot with
    ⟨_, _, rfl⟩ | ⟨_, _, rfl⟩ | ⟨hreload, rfl⟩
  · refine ⟨hknows, hcursors, haccounted, hview, trivial,
      hr.log_append ⟨progress_ordered hs, ?_, ?_⟩⟩
    · intro _ hresult
      cases hresult
    · intro _ hresult
      cases hresult
  · exact ⟨hknows, hcursors, haccounted, hview, trivial, hr.log⟩
  · rw [hreload] at hpc
    refine ⟨hknows, hcursors, haccounted, hview, trivial,
      hr.log_append ⟨progress_ordered hs, ?_, ?_⟩⟩
    · intro _ hresult
      cases hresult
    · intro _ _
      exact hpc

theorem stampIndex_le (hr : ReaderOk s r)
    (hpast : r.reader.thread.pc.pastCheck = true) :
    stampIndex cap r.reader.position ≤
      r.view.current (Place.seq (cap.slotOf r.reader.position)) :=
  hr.stamped _ (hr.cursors.past hpast)

theorem startCopy (hs : Stores s) (hr : ReaderOk s r) {k : Nat}
    {msg : Message (Place cap m) (BitVec W)}
    (hpc : r.reader.thread.pc = ReadPc.loadSeq)
    (hload : s.memory.load? r.view.current
      (Place.seq (cap.slotOf r.reader.position)) k = some msg)
    (hseq : msg.value = BitVec.ofNat W (2 * r.reader.position + 2)) :
    exists u, r.reader.position / cap.size ≤ u ∧
      CopyOk s.published (cap.slotOf r.reader.position)
        (r.view.loadAcquire (Place.seq (cap.slotOf r.reader.position)) k msg)
        k u msg.value (fun _ => none) := by
  rcases hs.each.load hload with ⟨hseen, hlast, hvalue, hcarries⟩
  have hindex := Nat.le_trans (hr.stampIndex_le (by rw [hpc]; rfl)) hseen
  rw [stampIndex] at hindex
  rcases even_stamp (by
    rw [← hvalue, hseq]
    exact Words.odd_test_even cap.width_pos (r.reader.position + 1)) (by lia) with ⟨u, rfl⟩
  have hbound : (Place.slot (cap.slotOf r.reader.position)).Bound (u + 1)
      (r.view.loadAcquire (Place.seq (cap.slotOf r.reader.position))
        (2 * u + 2) msg).current := SeqLocked.bound_of_loadAcquire hcarries
  refine ⟨u, by lia, rfl, hvalue,
    r.view.index_le_loadAcquire _ _ msg, hbound, ?_⟩
  · intro _ _ hword
    cases hword

theorem overwritten (hs : Stores s) (hr : ReaderOk s r) {k : Nat}
    {msg : Message (Place cap m) (BitVec W)}
    (hpc : r.reader.thread.pc = ReadPc.loadSeq)
    (hload : s.memory.load? r.view.current
      (Place.seq (cap.slotOf r.reader.position)) k = some msg)
    (heven : msg.value &&& 1#W ≠ 1#W)
    (hne : msg.value ≠ BitVec.ofNat W (2 * r.reader.position + 2)) :
    System.Overwritten cap s.stamped r.reader.position := by
  rcases hs.each.load hload with ⟨hseen, hlast, hvalue, _⟩
  have hindex := Nat.le_trans (hr.stampIndex_le (by rw [hpc]; rfl)) hseen
  rw [stampIndex] at hindex
  rcases even_stamp (by rw [← hvalue]; exact heven) (by lia) with ⟨u, rfl⟩
  apply overwritten_of_lap (u := u)
  · apply Nat.lt_of_le_of_ne (by lia)
    intro heq
    apply hne
    rw [hvalue, stamp_even, ← heq, cap.positionAt_slotOf]
  · exact hs.lt_stamped hlast

/--
While the words of `seq` do not wrap around between the reader and the
producer, an unchanged `seq` proves the copy to be the value of the position.
-/
theorem accepted (hs : Stores s) (hr : ReaderOk s r) {k : Nat}
    {msg : Message (Place cap m) (BitVec W)} {copied : Fin m -> Option Word}
    (hpc : r.reader.thread.pc = ReadPc.readData msg.value copied)
    (hload : s.memory.load? r.view.fenceAcquire.current
      (Place.seq (cap.slotOf r.reader.position)) k = some msg)
    {v : Payload m Word} (hcollect : collect copied = some v)
    (hbegun : s.published.length ≤ r.reader.position + 2 ^ (W - 1)) :
    s.published[r.reader.position]? = some v := by
  rcases hs.each.load hload with ⟨hseen, hlast, hvalue, _⟩
  have hseq := hr.cursors.readData _ _ hpc
  have hold := hr.pc
  rw [hpc] at hold
  rcases hold with ⟨u, hu, hcopy⟩
  have hstamped := (progress_ordered hs).right
  dsimp only [progress] at hstamped
  have hcurrent := r.view.current_le_fenceAcquire
    (Place.seq (cap.slotOf r.reader.position))
  have hcopySeen := hcopy.seen
  have hknown := hr.knows.current (Place.seq (cap.slotOf r.reader.position))
  rw [hcopy.index] at hcopySeen
  have hfirst : u = r.reader.position / cap.size := by
    have hlt := hs.lt_stamped (Nat.le_trans hcopySeen hknown)
    apply lap_eq hu (by lia)
    rw [← hseq, hcopy.seq1, hcopy.index, stamp_even]
  rcases even_stamp (by
    rw [← hvalue, hseq]
    exact Words.odd_test_even cap.width_pos (r.reader.position + 1)) (by lia) with ⟨u', rfl⟩
  have hlast' : u' = r.reader.position / cap.size := by
    have hlt := hs.lt_stamped hlast
    apply lap_eq (by lia) (by lia)
    rw [← hseq, hvalue, stamp_even]
  have hlength : r.reader.position < s.published.length := by
    have hlt := hs.lt_stamped hlast
    rw [hlast', cap.positionAt_slotOf] at hlt
    lia
  have hget := List.getElem?_eq_getElem hlength
  rw [hget]
  congr 1
  funext w
  have hword := collect_eq_some_iff.mp hcollect w
  rcases hcopy.copied w _ hword with ⟨x, hok, hcopied⟩
  have hx := (hcopied.mono r.view.acquired_le_fenceAcquire).version_eq
    (by rw [hfirst, ← hlast']; exact hseen)
  rcases hok u hx with ⟨value, hget', hv⟩
  rw [hfirst, cap.positionAt_slotOf, hget] at hget'
  rw [Option.some.inj hget', hv]

theorem of_pc {reader : Reader W m Word} {view : ThreadView (Place cap m)}
    {seqIndex : Nat} (hknows : s.memory.Knows view)
    (hcursors : reader.Cursors (view.current Place.writeCursor))
    (haccounted : reader.Accounted)
    (hstamped : Stamped cap reader.cachedPosition view.current)
    (hpc : reader.thread.pc = ReadPc.idle ∨
      reader.thread.pc = ReadPc.loadSeq)
    (hlog : forall e, e ∈ reader.log -> RecordOk cap s.published e) :
    ReaderOk s ⟨reader, view, seqIndex⟩ := by
  refine ⟨hknows, hcursors, haccounted, hstamped, ?_, hlog⟩
  dsimp only
  rcases hpc with hpc | hpc
  · rw [hpc]
    exact trivial
  · rw [hpc]
    exact trivial

theorem loadSeq (hs : Stores s) (hr : ReaderOk s r) {k : Nat}
    (h : s.readStep r (RelaxedReadAction.loadSeq k) = some r') :
    ReaderOk s r' := by
  rcases loadSeq_inv h with ⟨msg, reader, hload, hgot, rfl⟩
  rw [hr.cursors.slot] at hload ⊢
  have hcursors := hr.cursors.gotSeq hgot
  have haccounted := hr.accounted.gotSeq hgot
  have hacquire := r.view.current_le_loadAcquire
    (Place.seq (cap.slotOf r.reader.position)) k msg
  have hfence := le_trans r.view.current_le_fenceAcquire
    (r.view.fenceAcquire.current_le_loadRelaxed
      (Place.seq (cap.slotOf r.reader.position)) k msg)
  rcases Reader.gotSeq_inv hgot with ⟨stats, hcases⟩
  rcases hcases with ⟨hpc, _, rfl⟩ | ⟨hpc, heven, hne, rfl⟩ | ⟨hpc, hseq, rfl⟩ |
    ⟨copied, attemptedRead, hpc, hcollect, rfl⟩ | ⟨seq1, copied, hpc, _, rfl⟩
  · simp only [afterSeq, beforeSeq, hpc] at hload ⊢
    exact of_pc (hr.knows.load_acquire hs.grounded hload)
      (hcursors.mono (hacquire _)) haccounted (hr.stamped.mono hacquire)
      (Or.inr hpc) hr.log
  · simp only [afterSeq, beforeSeq, hpc] at hload ⊢
    rw [hr.cursors.expectedSeq] at hne
    have hover := hr.overwritten hs hpc hload heven hne
    exact ⟨hr.knows.load_acquire hs.grounded hload,
      hcursors.mono (hacquire _), haccounted, hr.stamped.mono hacquire,
      hover, hr.log⟩
  · simp only [afterSeq, beforeSeq, hpc] at hload ⊢
    rw [hr.cursors.expectedSeq] at hseq
    have hcopy := hr.startCopy hs hpc hload hseq
    exact ⟨hr.knows.load_acquire hs.grounded hload,
      hcursors.mono (hacquire _), haccounted, hr.stamped.mono hacquire,
      hcopy, hr.log⟩
  · simp only [afterSeq, beforeSeq, hpc] at hload ⊢
    apply of_pc (hr.knows.fenceAcquire.load_relaxed hs.grounded hload)
      (hcursors.mono (hfence _)) haccounted (hr.stamped.mono hfence)
      (Or.inl rfl)
    apply hr.log_append
    refine ⟨progress_ordered hs, ?_, ?_⟩
    · intro v hvalue hbegun
      cases hvalue
      exact hr.accepted hs hpc hload hcollect hbegun
    · intro _ hlapped
      cases hlapped
  · simp only [afterSeq, beforeSeq, hpc] at hload ⊢
    exact of_pc (hr.knows.fenceAcquire.load_relaxed hs.grounded hload)
      (hcursors.mono (hfence _)) haccounted (hr.stamped.mono hfence)
      (Or.inr rfl) hr.log

theorem loadWord (hs : Stores s) (hr : ReaderOk s r) {w : Fin m} {v : Nat}
    (h : s.readStep r (RelaxedReadAction.loadWord w v) = some r') :
    ReaderOk s r' := by
  rcases loadWord_inv h with ⟨msg, reader, hload, hgot, rfl⟩
  rw [hr.cursors.slot] at hload ⊢
  rcases (hs.each.load hload).right.right with ⟨hword, hcarries⟩
  have hcursors := hr.cursors.gotWord hgot
  have haccounted := hr.accounted.gotWord hgot
  have hcurrent := r.view.current_le_loadRelaxed
    (Place.word (cap.slotOf r.reader.position) w) v msg
  have hacquired := r.view.acquired_le_loadRelaxed
    (Place.word (cap.slotOf r.reader.position) w) v msg
  have hold := hr.pc
  rcases Reader.gotWord_inv hgot with ⟨seq1, copied, hpc, _, rfl⟩
  rw [hpc] at hold
  rcases hold with ⟨u, hu, hcopy⟩
  have hmono := hcopy.mono (fun _ _ _ hok => hok) hcurrent hacquired
  refine ⟨hr.knows.load_relaxed hs.grounded hload,
    hcursors.mono (hcurrent _), haccounted, hr.stamped.mono hcurrent, ?_,
    hr.log⟩
  refine ⟨u, hu, hmono.index, hmono.seq1, hmono.seen, hmono.bound, ?_⟩
  intro w' word hword'
  rcases eq_or_ne w' w with rfl | hne
  · rw [Function.update_self] at hword'
    rw [← Option.some.inj hword']
    exact ⟨v, hword, SeqLocked.Copied.of_load hcopy.bound hload hcarries⟩
  · rw [Function.update_of_ne hne] at hword'
    exact hmono.copied w' word hword'

theorem readStep (hs : Stores s) (hr : ReaderOk s r) {a : RelaxedReadAction m}
    (h : s.readStep r a = some r') : ReaderOk s r' := by
  cases a with
  | call => exact hr.call h
  | loadWriteCursor n => exact hr.loadWriteCursor hs h
  | loadSeq k => exact hr.loadSeq hs h
  | loadWord w v => exact hr.loadWord hs h

end ReaderOk

/-!
## All consumers
-/

def Readers (s : RelaxedSystem cap m Word) : Prop :=
  forall c r, s.readers c = some r -> ReaderOk s r

namespace Readers

theorem told (hstores : Stores s) (hs : Readers s) {source : Option Nat}
    {view : View (Place cap m)} (h : s.told source = some view) :
    s.memory.Covers view := by
  rcases told_inv h with ⟨_, _, rfl⟩ | ⟨d, r, _, hr, _, rfl⟩
  · exact hstores.knows.current
  · exact (hs d r hr).knows.current

theorem step (hstores : Stores s) (hs : Readers s) {a : RelaxedAction m Word}
    (h : s.step a = some s') : Readers s' := by
  have ha := Advances.step h
  intro c r hr
  have horigin := step_origin h hr
  cases horigin with
  | old hold => exact (hs c r hold).advance ha
  | stepped hold hstep => exact ((hs c _ hold).readStep hstores hstep).advance ha
  | cloned hparent _ hclone => exact ((hs _ _ hparent).clone hclone).advance ha
  | heard hold htold hpc =>
      exact ((hs c _ hold).hear (Readers.told hstores hs htold) hpc).advance ha

variable [Zero Word]

theorem new (cap : Capacity W) (m : Nat) (Word : Type) [Zero Word] :
    Readers (RelaxedSystem.new cap m Word) := by
  intro c r hr
  rw [readers_new hr]
  exact ReaderOk.new _

theorem reachable (hs : (relaxedMachine cap m Word).Reachable s) :
    Readers s :=
  hs.invariant_of_reachable (P := Readers) (Readers.new cap m Word)
    (fun _ _ _ hreach hr h => Readers.step (Stores.reachable hreach) hr h)

end Readers
end RelaxedSystem
end Spmc
end LowLatency
