import LowLatency.Spmc.Settled
import LowLatency.Spmc.System

/-!
# The ring at every step of the producer

The invariant ties `write_cursor`, the slot being published and all settled
slots to the list of published values.  Only steps of the producer touch the
ring.
-/

namespace LowLatency
namespace Spmc

open Foundation

namespace System

variable {W : Nat} {cap : Capacity W} {m : Nat} {Word : Type _} [Zero Word]
variable {s s' : System cap m Word}

structure Ring (s : System cap m Word) : Prop where
  length : s.published.length = s.completed + s.publishPc.begun
  cursor : s.queue.writeCursor = BitVec.ofNat W s.completed
  settled : Settled s.queue s.published s.opened s.stamped
  storeOdd : forall wPos value, s.publishPc = PublishPc.storeOdd wPos value ->
    wPos = BitVec.ofNat W s.completed ∧
      s.published[s.completed]? = some value
  writeData : forall wPos value written,
    s.publishPc = PublishPc.writeData wPos value written ->
      wPos = BitVec.ofNat W s.completed ∧
      s.published[s.completed]? = some value ∧
      (s.queue.slots (cap.slotOf s.completed)).seq =
        BitVec.ofNat W (2 * s.completed + 1) ∧
      forall i, written i = true ->
        (s.queue.slots (cap.slotOf s.completed)).data i = value i
  storeCursor : forall wPos, s.publishPc = PublishPc.storeCursor wPos ->
    wPos = BitVec.ofNat W s.completed

namespace Ring

theorem opened_le (hr : Ring s) : s.opened ≤ s.published.length := by
  rw [hr.length]
  exact Nat.add_le_add_left s.publishPc.opened_le_begun _

theorem progress_ordered (hr : Ring s) :
    s.progress.completed ≤ s.progress.stamped ∧
      s.progress.stamped ≤ s.progress.begun :=
  ⟨completed_le_stamped s, Nat.le_trans (stamped_le_opened s) hr.opened_le⟩

theorem length_of_pc (hr : Ring s) {pc : PublishPc W m Word}
    (hpc : s.publishPc = pc) :
    s.published.length = s.completed + pc.begun := by
  rw [hr.length, hpc]

theorem settled_of_pc (hr : Ring s) {pc : PublishPc W m Word}
    (hpc : s.publishPc = pc) :
    Settled s.queue s.published (s.completed + pc.opened)
      (s.completed + pc.stamped) := by
  rw [← hpc]
  exact hr.settled

theorem oddSeq_eq (n : Nat) :
    BitVec.ofNat W n * 2#W + 1#W = BitVec.ofNat W (2 * n + 1) := by
  rw [Words.ofNat_mul_two, BitVec.ofNat_add_ofNat]

theorem evenSeq_eq (n : Nat) :
    BitVec.ofNat W n * 2#W + 2#W = BitVec.ofNat W (2 * n + 2) := by
  rw [Words.ofNat_mul_two]
  exact BitVec.ofNat_add_ofNat _ 2

theorem new (cap : Capacity W) (m : Nat) (Word : Type _) [Zero Word] :
    Ring (System.new cap m Word) where
  length := rfl
  cursor := rfl
  settled := Settled.new cap m Word
  storeOdd _ _ h := by cases h
  writeData _ _ _ h := by cases h
  storeCursor _ h := by cases h

theorem publishCall (hr : Ring s) {value : Payload m Word}
    (h : s.publishCall value = some s') : Ring s' := by
  rcases publishCall_inv h with ⟨hpc, rfl⟩
  have hlength : s.published.length = s.completed := hr.length_of_pc hpc
  have hsettled : Settled s.queue s.published s.completed s.completed :=
    hr.settled_of_pc hpc
  refine ⟨?_, hr.cursor, ?_, ?_, ?_, ?_⟩
  · change (s.published ++ [value]).length = s.completed + 1
    rw [List.length_append, hlength]
    rfl
  · exact hsettled.append (Nat.le_of_eq hlength.symm) value
  · intro wPos v hstore
    cases hstore
    exists hr.cursor
    change (s.published ++ [value])[s.completed]? = some value
    rw [← hlength, List.getElem?_concat_length]
  · intro _ _ _ hwrite
    cases hwrite
  · intro _ hcursor
    cases hcursor

theorem publishStoreOdd (hr : Ring s) (h : s.publishStoreOdd = some s') :
    Ring s' := by
  rcases publishStoreOdd_inv h with ⟨wPos, value, hpc, rfl⟩
  rcases hr.storeOdd wPos value hpc with ⟨rfl, hget⟩
  have hsettled : Settled s.queue s.published s.completed s.completed :=
    hr.settled_of_pc hpc
  refine ⟨?_, hr.cursor, ?_, ?_, ?_, ?_⟩
  · rw [hr.length, hpc]
    rfl
  · exact hsettled.openSlot _
  · intro _ _ hstore
    cases hstore
  · intro wPos v written hwrite
    cases hwrite
    refine ⟨rfl, hget, ?_, ?_⟩
    · change ((s.queue.storeSeq (cap.slotOf s.completed) _).slots
        (cap.slotOf s.completed)).seq = _
      rw [Queue.storeSeq_slots_self, oddSeq_eq]
    · intro i hwritten
      cases hwritten
  · intro _ hcursor
    cases hcursor

theorem publishWriteWord (hr : Ring s) {i : Fin m}
    (h : s.publishWriteWord i = some s') : Ring s' := by
  rcases publishWriteWord_inv h with ⟨wPos, value, written, hpc, _, rfl⟩
  rcases hr.writeData wPos value written hpc with ⟨rfl, hget, hseq, hdata⟩
  have hsettled : Settled s.queue s.published (s.completed + 1) s.completed :=
    hr.settled_of_pc hpc
  have hslot : (s.queue.writeWord (cap.slotOf s.completed) i
      (value i)).slots (cap.slotOf s.completed) =
        ⟨(s.queue.slots (cap.slotOf s.completed)).seq,
          Function.update (s.queue.slots (cap.slotOf s.completed)).data i
            (value i)⟩ :=
    Queue.writeData_slots_self _ _ _
  refine ⟨?_, hr.cursor, ?_, ?_, ?_, ?_⟩
  · rw [hr.length, hpc]
    rfl
  · exact hsettled.writeData _
  · intro _ _ hstore
    cases hstore
  · intro wPos v written' hwrite
    cases hwrite
    refine ⟨rfl, hget, ?_, ?_⟩
    · exact (congrArg Slot.seq hslot).trans hseq
    · intro j hj
      refine (congrFun (congrArg Slot.data hslot) j).trans ?_
      exact update_written value hdata i j hj
  · intro _ hcursor
    cases hcursor

theorem publishStoreEven (hr : Ring s) (h : s.publishStoreEven = some s') :
    Ring s' := by
  rcases publishStoreEven_inv h with ⟨wPos, value, written, hpc, hall, rfl⟩
  rcases hr.writeData wPos value written hpc with ⟨rfl, hget, _, hdata⟩
  have hsettled : Settled s.queue s.published (s.completed + 1) s.completed :=
    hr.settled_of_pc hpc
  have hwhole : (s.queue.slots (cap.slotOf s.completed)).data = value := by
    funext i
    exact hdata i (hall i)
  refine ⟨?_, hr.cursor, ?_, ?_, ?_, ?_⟩
  · rw [hr.length, hpc]
    rfl
  · rw [evenSeq_eq]
    exact hsettled.stamp hget hwhole
  · intro _ _ hstore
    cases hstore
  · intro _ _ _ hwrite
    cases hwrite
  · intro wPos hcursor
    cases hcursor
    rfl

theorem publishStoreCursor (hr : Ring s)
    (h : s.publishStoreCursor = some s') : Ring s' := by
  rcases publishStoreCursor_inv h with ⟨wPos, hpc, rfl⟩
  have hwPos := hr.storeCursor wPos hpc
  subst hwPos
  have hsettled : Settled s.queue s.published (s.completed + 1)
      (s.completed + 1) :=
    hr.settled_of_pc hpc
  constructor
  · rw [hr.length, hpc]
    rfl
  · exact BitVec.ofNat_add_ofNat _ 1
  · exact hsettled.of_slots rfl
  · intro _ _ hstore
    cases hstore
  · intro _ _ _ hwrite
    cases hwrite
  · intro _ hcursor
    cases hcursor

theorem setReader (hr : Ring s) (c : Nat) (r : Reader W m Word) :
    Ring (s.setReader c r) :=
  ⟨hr.length, hr.cursor, hr.settled, hr.storeOdd, hr.writeData,
    hr.storeCursor⟩

theorem step (hr : Ring s) {a : Action m Word} (h : s.step a = some s') :
    Ring s' := by
  cases a with
  | publishCall value => exact hr.publishCall h
  | publishStoreOdd => exact hr.publishStoreOdd h
  | publishWriteWord i => exact hr.publishWriteWord h
  | publishStoreEven => exact hr.publishStoreEven h
  | publishStoreCursor => exact hr.publishStoreCursor h
  | read c a =>
      rcases read_inv h with ⟨_, r', _, _, rfl⟩
      exact hr.setReader c r'
  | clone parent child =>
      rcases clone_inv h with ⟨_, r', _, _, _, rfl⟩
      exact hr.setReader child r'

theorem reachable (hs : (machine cap m Word).Reachable s) : Ring s :=
  hs.invariant (Ring.new cap m Word) (fun _ _ _ hr h => hr.step h)

/-!
## What a reader finds in its slot
-/

theorem opened_not_stamped (hr : Ring s) {e : Nat} (hopened : e < s.opened)
    (hstamped : s.stamped ≤ e) :
    (s.queue.slots (cap.slotOf e)).seq = BitVec.ofNat W (2 * e + 1) := by
  rcases writing_of_open hopened hstamped with
    ⟨heq, wPos, value, written, hpc⟩
  rw [heq]
  exact (hr.writeData wPos value written hpc).right.right.left

/-- The slot of position `r` belongs to a position at least one lap later. -/
theorem slot_cases (hr : Ring s) {r : Nat} (hlt : r < s.completed) :
    (s.opened ≤ r + cap.size ∧
      exists value, s.published[r]? = some value ∧
        s.queue.slots (cap.slotOf r) =
          ⟨BitVec.ofNat W (2 * r + 2), value⟩) ∨
    (exists e, Nat.ModEq cap.size e r ∧ r + cap.size ≤ e ∧
      e < s.published.length ∧
      ((e < s.stamped ∧
          (s.queue.slots (cap.slotOf r)).seq = BitVec.ofNat W (2 * e + 2)) ∨
        (s.queue.slots (cap.slotOf r)).seq = BitVec.ofNat W (2 * e + 1))) := by
  have hopened := hr.opened_le
  have hle := stamped_le_opened s
  have hstamped := Nat.lt_of_lt_of_le hlt (completed_le_stamped s)
  rcases hr.settled.slot_cases (Nat.le_trans hle hopened) hle hstamped with
    hown | ⟨_, e, hmod, hlap, he, hslot⟩
  · exact Or.inl hown
  · right
    refine ⟨e, hmod, hlap, Nat.lt_of_lt_of_le he hopened, ?_⟩
    rcases Nat.lt_or_ge e s.stamped with hlt | hge
    · rcases hslot hlt with ⟨value, _, hslot⟩
      exact Or.inl ⟨hlt, by rw [hslot]⟩
    · right
      rw [← cap.slotOf_eq_iff.mpr hmod]
      exact hr.opened_not_stamped he hge

end Ring
end System
end Spmc
end LowLatency
