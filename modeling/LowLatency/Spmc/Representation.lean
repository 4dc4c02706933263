import LowLatency.Spmc.Ring
import Mathlib.Order.Bounds.Basic

/-!
# What the ring represents

A slot stands for the last published position that shares its index.  While a
publish is in progress this is so for all slots but one, and the remaining one
is in the state that the program counter of the producer says.
-/

namespace LowLatency
namespace Spmc

open Foundation

variable {W : Nat} {cap : Capacity W} {m : Nat} {Word : Type _}
variable {published : List (Payload m Word)} {n : Nat}

/-!
## The last position of a slot
-/

def positions (cap : Capacity W) (n : Nat) (j : Fin cap.size) : Set Nat :=
  {p | p < n ∧ Nat.ModEq cap.size p j}

inductive Latest [Zero Word] (cap : Capacity W)
    (published : List (Payload m Word)) (n : Nat) (j : Fin cap.size) :
    Slot W m Word -> Prop where
  | stamped {p : Nat} {value : Payload m Word}
      (hlast : IsGreatest (positions cap n j) p)
      (hget : published[p]? = some value) :
      Latest cap published n j ⟨BitVec.ofNat W (2 * p + 2), value⟩
  | fresh (hnone : positions cap n j = ∅) :
      Latest cap published n j ⟨0#W, fun _ => 0⟩

theorem modEq_val_iff {p : Nat} {j : Fin cap.size} :
    Nat.ModEq cap.size p j <-> cap.slotOf p = j := by
  rw [← cap.slotOf_eq_iff, cap.slotOf_val]

theorem slotOf_of_mem {j : Fin cap.size} {p : Nat}
    (h : p ∈ positions cap n j) : cap.slotOf p = j :=
  modEq_val_iff.mp h.right

theorem le_add_size_of_isGreatest {j : Fin cap.size} {p : Nat}
    (h : IsGreatest (positions cap n j) p) : n ≤ p + cap.size := by
  rcases Nat.lt_or_ge (p + cap.size) n with hlt | hge
  · have hmod : Nat.ModEq cap.size (p + cap.size) j :=
      (Nat.add_mod_right p cap.size).trans h.left.right
    have hle : p + cap.size ≤ p := h.right ⟨hlt, hmod⟩
    have hpos := cap.size_pos
    lia
  · exact hge

theorem lt_size_of_positions_eq_empty {j : Fin cap.size}
    (h : positions cap n j = ∅) : n < cap.size := by
  rcases Nat.lt_or_ge j n with hlt | hge
  · have hmem : j.val ∈ positions cap n j := ⟨hlt, rfl⟩
    rw [h] at hmem
    exact absurd hmem (Set.notMem_empty j.val)
  · exact Nat.lt_of_le_of_lt hge j.isLt

theorem isGreatest_positions {j : Fin cap.size} {p : Nat} (hp : p < n)
    (hslot : cap.slotOf p = j) (hlast : n ≤ p + cap.size) :
    IsGreatest (positions cap n j) p := by
  have hmod : Nat.ModEq cap.size p j := modEq_val_iff.mpr hslot
  constructor
  · exact ⟨hp, hmod⟩
  · intro r hr
    rcases Nat.lt_or_ge p r with hlt | hge
    · have hlap := lap_of_modEq (hr.right.trans hmod.symm) hlt
      have hrn := hr.left
      lia
    · exact hge

namespace Latest

variable [Zero Word] {j : Fin cap.size} {slot : Slot W m Word}

theorem append (h : Latest cap published n j slot)
    (value : Payload m Word) : Latest cap (published ++ [value]) n j slot := by
  cases h with
  | stamped hlast hget =>
      exact Latest.stamped hlast (getElem?_append_of_eq_some hget [value])
  | fresh hnone => exact Latest.fresh hnone

theorem seq_even (h : Latest cap published n j slot) :
    slot.seq &&& 1#W ≠ 1#W := by
  cases h with
  | stamped hlast hget => exact Words.odd_test_even cap.width_pos (_ + 1)
  | fresh hnone => exact Words.odd_test_even cap.width_pos 0

/-- Among the last `2 ^ (W - 1)` positions the sequence number belongs to one. -/
theorem identifies (h : Latest cap published n j slot) {p : Nat} (hp : p < n)
    (hnear : n ≤ p + 2 ^ (W - 1))
    (hseq : slot.seq = BitVec.ofNat W (2 * p + 2)) :
    IsGreatest (positions cap n j) p ∧ published[p]? = some slot.data := by
  have hsmall := cap.size_le_half
  cases h with
  | stamped hlast hget =>
      rename_i q value
      have hq := hlast.left.left
      have hlap := le_add_size_of_isGreatest hlast
      have heq : p = q := by
        rcases Nat.le_total p q with hle | hle
        · have hsucc := Words.eq_of_ofNat_two_mul_eq cap.width_pos
            (show p + 1 ≤ q + 1 by lia) (by lia) hseq.symm
          lia
        · have hsucc := Words.eq_of_ofNat_two_mul_eq cap.width_pos
            (show q + 1 ≤ p + 1 by lia) (by lia) hseq
          lia
      subst heq
      exact ⟨hlast, hget⟩
  | fresh hnone =>
      have hfirst := lt_size_of_positions_eq_empty hnone
      have hzero := Words.eq_of_ofNat_two_mul_eq cap.width_pos
        (Nat.zero_le (p + 1)) (by lia) hseq
      lia

end Latest

theorem Settled.latest [Zero Word] {q : Queue cap m Word}
    {opened stamped : Nat} {j : Fin cap.size}
    (hs : Settled q published opened stamped)
    (hlength : stamped ≤ published.length) (hn : n ≤ stamped)
    (hfree : forall e, n ≤ e -> e < opened -> cap.slotOf e ≠ j) :
    Latest cap published n j (q.slots j) := by
  by_cases hold : exists r, r < n ∧ cap.slotOf r = j
  · rcases hold with ⟨r, hr, hslot⟩
    rcases exists_last_opened cap hr with ⟨e, hmod, _, he, hlast⟩
    have hej : cap.slotOf e = j := (cap.slotOf_eq_iff.mpr hmod).trans hslot
    have hopen : opened ≤ e + cap.size := by
      rcases Nat.lt_or_ge (e + cap.size) opened with hlt | hge
      · have hnext : cap.slotOf (e + cap.size) = j :=
          (cap.slotOf_eq_iff.mpr (Nat.add_mod_right e cap.size)).trans hej
        exact absurd hnext (hfree _ hlast hlt)
      · exact hge
    have hget := List.getElem?_eq_getElem (show e < published.length by lia)
    have hholds := hs.holds e _ (by lia) hopen hget
    rw [hej] at hholds
    rw [hholds]
    exact Latest.stamped (isGreatest_positions he hej hlast) hget
  · have hnone : positions cap n j = ∅ := by
      apply Set.eq_empty_of_forall_notMem
      intro p hp
      exact hold ⟨p, hp.left, slotOf_of_mem hp⟩
    -- the first position of slot `j` is `j` itself
    have hfirst : opened ≤ j := by
      rcases Nat.lt_or_ge j opened with hlt | hge
      · rcases Nat.lt_or_ge j n with hbelow | habove
        · exact absurd ⟨j.val, hbelow, cap.slotOf_val j⟩ hold
        · exact absurd (cap.slotOf_val j) (hfree j habove hlt)
      · exact hge
    have hfresh := hs.fresh j hfirst j.isLt
    rw [cap.slotOf_val] at hfresh
    rw [hfresh]
    exact Latest.fresh hnone

/-!
## The slot of the producer

Half written, a slot keeps the words that are not written yet from the value it
held before.
-/

/-- The slot of position `n` at each point of its publish. -/
inductive AtPoint [Zero Word] (cap : Capacity W)
    (published : List (Payload m Word)) (n : Nat) :
    PublishPc W m Word -> Slot W m Word -> Prop where
  | idle {slot : Slot W m Word}
      (hlatest : Latest cap published n (cap.slotOf n) slot) :
      AtPoint cap published n PublishPc.idle slot
  | storeOdd {value : Payload m Word} {slot : Slot W m Word}
      (hget : published[n]? = some value)
      (hlatest : Latest cap published n (cap.slotOf n) slot) :
      AtPoint cap published n
        (PublishPc.storeOdd (BitVec.ofNat W n) value) slot
  | writeData {value : Payload m Word} {written : Fin m -> Bool}
      {old : Slot W m Word} (hget : published[n]? = some value)
      (hlatest : Latest cap published n (cap.slotOf n) old) :
      AtPoint cap published n
        (PublishPc.writeData (BitVec.ofNat W n) value written)
        ⟨BitVec.ofNat W (2 * n + 1),
          fun i => if written i then value i else old.data i⟩
  | storeCursor {value : Payload m Word} (hget : published[n]? = some value) :
      AtPoint cap published n (PublishPc.storeCursor (BitVec.ofNat W n))
        ⟨BitVec.ofNat W (2 * n + 2), value⟩

/-!
## The history of a run
-/

namespace Action

def value? : Action m Word -> Option (Payload m Word)
  | publishCall value => some value
  | _ => none

def completes : Action m Word -> Bool
  | publishStoreCursor => true
  | _ => false

end Action

namespace System

variable {s s' : System cap m Word}

theorem step_history {a : Action m Word} (h : s.step a = some s') :
    s'.published = s.published ++ [a].filterMap Action.value? ∧
      s'.completed = s.completed + [a].countP Action.completes := by
  cases a with
  | publishCall value =>
      rcases publishCall_inv h with ⟨_, rfl⟩
      exact ⟨rfl, rfl⟩
  | publishStoreOdd =>
      rcases publishStoreOdd_inv h with ⟨_, _, _, rfl⟩
      exact ⟨(List.append_nil _).symm, rfl⟩
  | publishWriteWord i =>
      rcases publishWriteWord_inv h with ⟨_, _, _, _, _, rfl⟩
      exact ⟨(List.append_nil _).symm, rfl⟩
  | publishStoreEven =>
      rcases publishStoreEven_inv h with ⟨_, _, _, _, _, rfl⟩
      exact ⟨(List.append_nil _).symm, rfl⟩
  | publishStoreCursor =>
      rcases publishStoreCursor_inv h with ⟨_, _, rfl⟩
      exact ⟨(List.append_nil _).symm, rfl⟩
  | read c a =>
      rcases read_inv h with ⟨_, _, _, _, rfl⟩
      exact ⟨(List.append_nil _).symm, rfl⟩
  | clone parent child =>
      rcases clone_inv h with ⟨_, _, _, _, _, rfl⟩
      exact ⟨(List.append_nil _).symm, rfl⟩

variable [Zero Word]

/-- `published` and `completed` are what the actions of the run say. -/
theorem run_history {actions : List (Action m Word)}
    (h : (machine cap m Word).run actions = some s) :
    s.published = actions.filterMap Action.value? ∧
      s.completed = actions.countP Action.completes := by
  apply Machine.runFrom_invariant_of_actions
    (P := fun before (s : System cap m Word) =>
      s.published = before.filterMap Action.value? ∧
        s.completed = before.countP Action.completes) ?_ [] ⟨rfl, rfl⟩ h
  intro before s a s' hbefore hstep
  rcases step_history hstep with ⟨hpublished, hcompleted⟩
  constructor
  · rw [hpublished, hbefore.left, List.filterMap_append]
  · rw [hcompleted, hbefore.right, List.countP_append]

/-!
## The ring between two stores
-/

theorem Ring.latest (hr : Ring s) {j : Fin cap.size} (hn : n ≤ s.stamped)
    (hfree : forall e, n ≤ e -> e < s.opened -> cap.slotOf e ≠ j) :
    Latest cap s.published n j (s.queue.slots j) :=
  hr.settled.latest (Nat.le_trans (stamped_le_opened s) hr.opened_le) hn hfree

theorem Ring.latest_of_idle (hr : Ring s)
    (hpc : s.publishPc = PublishPc.idle) (j : Fin cap.size) :
    Latest cap s.published s.completed j (s.queue.slots j) := by
  apply hr.latest (completed_le_stamped s)
  intro e hle hlt
  rw [opened, hpc] at hlt
  exact absurd hle (Nat.not_le_of_lt hlt)

def SlotAtPoint (s : System cap m Word) : Prop :=
  AtPoint cap s.published s.completed s.publishPc
    (s.queue.slots (cap.slotOf s.completed))

namespace SlotAtPoint

theorem new (cap : Capacity W) (m : Nat) (Word : Type _) [Zero Word] :
    SlotAtPoint (System.new cap m Word) :=
  AtPoint.idle ((Ring.new cap m Word).latest_of_idle rfl _)

theorem publishCall (hp : SlotAtPoint s) (hr : Ring s)
    {value : Payload m Word} (h : s.publishCall value = some s') :
    SlotAtPoint s' := by
  rcases publishCall_inv h with ⟨hpc, rfl⟩
  have hlength : s.published.length = s.completed := hr.length_of_pc hpc
  unfold SlotAtPoint at hp ⊢
  rw [hpc] at hp
  rw [hr.cursor]
  cases hp with
  | idle hlatest =>
      apply AtPoint.storeOdd
      · rw [← hlength, List.getElem?_concat_length]
      · exact hlatest.append value

theorem publishStoreOdd (hp : SlotAtPoint s)
    (h : s.publishStoreOdd = some s') : SlotAtPoint s' := by
  rcases publishStoreOdd_inv h with ⟨wPos, value, hpc, rfl⟩
  unfold SlotAtPoint at hp ⊢
  rw [hpc] at hp
  cases hp with
  | storeOdd hget hlatest =>
      have hslot := Queue.storeSeq_slots_self s.queue (cap.slotOf s.completed)
        (BitVec.ofNat W s.completed * 2#W + 1#W)
      rw [Ring.oddSeq_eq] at hslot
      dsimp only
      rw [← Capacity.slotOf, Ring.oddSeq_eq, hslot]
      exact AtPoint.writeData hget hlatest

theorem publishWriteWord (hp : SlotAtPoint s) {i : Fin m}
    (h : s.publishWriteWord i = some s') : SlotAtPoint s' := by
  rcases publishWriteWord_inv h with ⟨wPos, value, written, hpc, _, rfl⟩
  unfold SlotAtPoint at hp ⊢
  rw [hpc] at hp
  generalize hold : s.queue.slots (cap.slotOf s.completed) = slot at hp
  cases hp with
  | writeData hget hlatest =>
      rename_i old
      have hword := update_unwritten value old.data written i
      have hslot := Queue.writeData_slots_self s.queue
        (cap.slotOf s.completed)
        (Function.update (s.queue.slots (cap.slotOf s.completed)).data i
          (value i))
      rw [hold, hword] at hslot
      dsimp only
      rw [← Capacity.slotOf, Queue.writeWord, hold, hword, hslot]
      exact AtPoint.writeData hget hlatest

theorem publishStoreEven (hp : SlotAtPoint s)
    (h : s.publishStoreEven = some s') : SlotAtPoint s' := by
  rcases publishStoreEven_inv h with ⟨wPos, value, written, hpc, hall, rfl⟩
  unfold SlotAtPoint at hp ⊢
  rw [hpc] at hp
  generalize hold : s.queue.slots (cap.slotOf s.completed) = slot at hp
  cases hp with
  | writeData hget hlatest =>
      rename_i old
      have hwhole : (fun k => if written k then value k else old.data k) =
          value := by
        funext k
        exact if_pos (hall k)
      rw [hwhole] at hold
      have hslot := Queue.storeSeq_slots_self s.queue (cap.slotOf s.completed)
        (BitVec.ofNat W (2 * s.completed + 2))
      rw [hold] at hslot
      dsimp only
      rw [← Capacity.slotOf, Ring.evenSeq_eq, hslot]
      exact AtPoint.storeCursor hget

theorem publishStoreCursor (hr : Ring s)
    (h : s.publishStoreCursor = some s') : SlotAtPoint s' := by
  have hpc : s'.publishPc = PublishPc.idle := by
    rcases publishStoreCursor_inv h with ⟨wPos, _, rfl⟩
    rfl
  unfold SlotAtPoint
  rw [hpc]
  exact AtPoint.idle ((hr.publishStoreCursor h).latest_of_idle hpc _)

theorem step (hp : SlotAtPoint s) (hr : Ring s) {a : Action m Word}
    (h : s.step a = some s') : SlotAtPoint s' := by
  cases a with
  | publishCall value => exact hp.publishCall hr h
  | publishStoreOdd => exact hp.publishStoreOdd h
  | publishWriteWord i => exact hp.publishWriteWord h
  | publishStoreEven => exact hp.publishStoreEven h
  | publishStoreCursor => exact publishStoreCursor hr h
  | read c a =>
      rcases read_inv h with ⟨_, r', _, _, rfl⟩
      exact hp
  | clone parent child =>
      rcases clone_inv h with ⟨_, r', _, _, _, rfl⟩
      exact hp

theorem reachable (hs : (machine cap m Word).Reachable s) : SlotAtPoint s :=
  hs.invariant_of_reachable (SlotAtPoint.new cap m Word)
    (fun _ _ _ hreach hp h => hp.step (Ring.reachable hreach) h)

end SlotAtPoint

/-!
## Sequence numbers in the ring
-/

theorem Ring.latest_of_ne (hr : Ring s) {j : Fin cap.size}
    (hj : j ≠ cap.slotOf s.completed) :
    Latest cap s.published s.completed j (s.queue.slots j) := by
  apply hr.latest (completed_le_stamped s)
  intro e hle hlt heq
  have hone := s.publishPc.opened_le_one
  have hcompleted : e = s.completed := by
    rw [opened] at hlt
    lia
  apply hj
  rw [← heq, hcompleted]

/-- Only the slot that is being written has an odd sequence number. -/
theorem Ring.slotOf_of_odd (hr : Ring s) {j : Fin cap.size}
    (hodd : (s.queue.slots j).seq &&& 1#W = 1#W) :
    j = cap.slotOf s.completed := by
  by_contra hj
  exact (hr.latest_of_ne hj).seq_even hodd

theorem Ring.latest_of_even (hr : Ring s) {j : Fin cap.size}
    (heven : (s.queue.slots j).seq &&& 1#W ≠ 1#W) :
    Latest cap s.published s.stamped j (s.queue.slots j) := by
  apply hr.latest (Nat.le_refl _)
  intro e hle hlt heq
  apply heven
  rw [← heq, hr.opened_not_stamped hlt hle]
  exact Words.odd_test_odd cap.width_pos e

/-- The next step of the producer stores `seq` in the slot of its position. -/
def StoresSeq (s : System cap m Word) (seq : BitVec W) : Prop :=
  exists a s', (a = Action.publishStoreOdd ∨ a = Action.publishStoreEven) ∧
    s.step a = some s' ∧ (s'.queue.slots (cap.slotOf s.completed)).seq = seq

theorem Ring.stored_seq (hr : Ring s) {seq : BitVec W}
    (h : s.StoresSeq seq) :
    seq = BitVec.ofNat W (2 * s.completed + 1) ∨
      seq = BitVec.ofNat W (2 * s.completed + 2) := by
  rcases h with ⟨a, s', rfl | rfl, hstep, rfl⟩
  · left
    rcases publishStoreOdd_inv hstep with ⟨wPos, value, hpc, rfl⟩
    rcases hr.storeOdd wPos value hpc with ⟨rfl, _⟩
    rw [← oddSeq_eq]
    exact congrArg Slot.seq (Queue.storeSeq_slots_self s.queue _ _)
  · right
    rcases publishStoreEven_inv hstep with ⟨wPos, value, written, hpc, _, rfl⟩
    rcases hr.writeData wPos value written hpc with ⟨rfl, _⟩
    rw [← evenSeq_eq]
    exact congrArg Slot.seq (Queue.storeSeq_slots_self s.queue _ _)

/-- Positions less than `2 ^ (W - 1)` apart share no sequence number. -/
theorem stored_seq_ne {t : System cap m Word} (hs : Ring s) (ht : Ring t)
    {x y : BitVec W} (hx : s.StoresSeq x) (hy : t.StoresSeq y)
    (hlt : s.completed < t.completed)
    (hnear : t.completed < s.completed + 2 ^ (W - 1)) : x ≠ y := by
  have hpow := Words.two_pow_pred cap.width_pos
  rcases hs.stored_seq hx with rfl | rfl <;>
    rcases ht.stored_seq hy with rfl | rfl <;>
    exact Words.ofNat_ne_of_lt (by lia) (by lia)

/-!
## The representation invariant
-/

structure Represents (s : System cap m Word) : Prop where
  cursor : s.queue.writeCursor = BitVec.ofNat W s.completed
  others : forall j, j ≠ cap.slotOf s.completed ->
    Latest cap s.published s.completed j (s.queue.slots j)
  point : SlotAtPoint s
  oneOdd : forall i j, (s.queue.slots i).seq &&& 1#W = 1#W ->
    (s.queue.slots j).seq &&& 1#W = 1#W -> i = j
  identifies : forall j p, p < s.stamped -> s.stamped ≤ p + 2 ^ (W - 1) ->
    (s.queue.slots j).seq = BitVec.ofNat W (2 * p + 2) ->
      IsGreatest (positions cap s.stamped j) p ∧
        s.published[p]? = some (s.queue.slots j).data

theorem represents (hs : (machine cap m Word).Reachable s) :
    Represents s := by
  have hr := Ring.reachable hs
  constructor
  · exact hr.cursor
  · intro j hj
    exact hr.latest_of_ne hj
  · exact SlotAtPoint.reachable hs
  · intro i j hi hj
    exact (hr.slotOf_of_odd hi).trans (hr.slotOf_of_odd hj).symm
  · intro j p hp hnear hseq
    have heven : (s.queue.slots j).seq &&& 1#W ≠ 1#W := by
      rw [hseq]
      exact Words.odd_test_even cap.width_pos (p + 1)
    exact (hr.latest_of_even heven).identifies hp hnear hseq

theorem ring_representation (cap : Capacity W) (m : Nat) (Word : Type _)
    [Zero Word] :
    (forall slots : Fin cap.size -> Option (Slot W m Word),
      Queue.initSlots slots =
        fun ix => some ((machine cap m Word).start.queue.slots ix)) ∧
    (forall actions s, (machine cap m Word).run actions = some s ->
      s.published = actions.filterMap Action.value? ∧
        s.completed = actions.countP Action.completes ∧ Represents s) ∧
    (forall s t, (machine cap m Word).Reachable s ->
      (machine cap m Word).Reachable t -> forall x y,
        s.StoresSeq x -> t.StoresSeq y -> s.completed < t.completed ->
          t.completed < s.completed + 2 ^ (W - 1) -> x ≠ y) := by
  constructor
  · intro slots
    exact Queue.initSlots_eq_new slots
  · constructor
    · intro actions s hrun
      rcases run_history hrun with ⟨hpublished, hcompleted⟩
      exact ⟨hpublished, hcompleted, represents ⟨actions, hrun⟩⟩
    · intro s t hs ht x y hx hy
      exact stored_seq_ne (Ring.reachable hs) (Ring.reachable ht) hx hy

def publishesInPart (count steps : Nat) : List (Action 2 Nat) :=
  (List.range count).flatMap (fun k => publishAll (fun i => 10 * k + i)) ++
    (publishAll (fun i => 10 * count + i)).take steps

/--
Two slots and counters of two bits: the sixth publish is half written, and the
sequence numbers of the first two positions differ.
-/
theorem ring_representation_half_written :
    (exists s, (machine (⟨2#2, 1, rfl⟩ : Capacity 2) 2 Nat).run
        (publishesInPart 5 3) = some s ∧
      s.completed = 5 ∧ s.queue.writeCursor = 1#2 ∧
      (s.queue.slots (Capacity.slotOf ⟨2#2, 1, rfl⟩ 5)).seq = 3#2 ∧
      (s.queue.slots (Capacity.slotOf ⟨2#2, 1, rfl⟩ 5)).data 0 = 30 ∧
      (s.queue.slots (Capacity.slotOf ⟨2#2, 1, rfl⟩ 5)).data 1 = 51 ∧
      Represents s) ∧
    (exists s, (machine (⟨2#2, 1, rfl⟩ : Capacity 2) 2 Nat).run
        (publishesInPart 0 1) = some s ∧
      exists t, (machine (⟨2#2, 1, rfl⟩ : Capacity 2) 2 Nat).run
          (publishesInPart 1 1) = some t ∧
        s.completed = 0 ∧ t.completed = 1 ∧
        exists x y, s.StoresSeq x ∧ t.StoresSeq y ∧ x ≠ y) := by
  constructor
  · apply Machine.exists_run_of_map
      (fun s => (s.completed, s.queue.writeCursor,
        (s.queue.slots (Capacity.slotOf ⟨2#2, 1, rfl⟩ 5)).seq,
        (s.queue.slots (Capacity.slotOf ⟨2#2, 1, rfl⟩ 5)).data 0,
        (s.queue.slots (Capacity.slotOf ⟨2#2, 1, rfl⟩ 5)).data 1))
      (5, 1#2, 3#2, 30, 51) (by decide +kernel)
    intro s hrun hshown
    simp only [Prod.mk.injEq] at hshown
    rcases hshown with ⟨hcompleted, hcursor, hseq, hfirst, hsecond⟩
    have hrep := (ring_representation (⟨2#2, 1, rfl⟩ : Capacity 2) 2
      Nat).right.left _ s hrun
    exact ⟨hcompleted, hcursor, hseq, hfirst, hsecond, hrep.right.right⟩
  · apply Machine.exists_run_of_map
      (fun s => (s.completed, (s.step Action.publishStoreOdd).map (fun s' =>
        (s'.queue.slots (Capacity.slotOf ⟨2#2, 1, rfl⟩ s.completed)).seq)))
      (0, some 1#2) (by decide +kernel)
    intro s hs hshown
    apply Machine.exists_run_of_map
      (fun t => (t.completed, (t.step Action.publishStoreOdd).map (fun t' =>
        (t'.queue.slots (Capacity.slotOf ⟨2#2, 1, rfl⟩ t.completed)).seq)))
      (1, some 3#2) (by decide +kernel)
    intro t ht hshown'
    simp only [Prod.mk.injEq] at hshown hshown'
    rcases hshown with ⟨hzero, hx⟩
    rcases hshown' with ⟨hone, hy⟩
    rcases Option.map_eq_some_iff.mp hx with ⟨s', hstep, hseq⟩
    rcases Option.map_eq_some_iff.mp hy with ⟨t', hstep', hseq'⟩
    have hx : s.StoresSeq 1#2 := ⟨_, s', Or.inl rfl, hstep, hseq⟩
    have hy : t.StoresSeq 3#2 := ⟨_, t', Or.inl rfl, hstep', hseq'⟩
    have hlt : s.completed < t.completed := by
      rw [hzero, hone]
      exact Nat.zero_lt_one
    have hnear : t.completed < s.completed + 2 ^ (2 - 1) := by
      rw [hzero, hone]
      decide
    exact ⟨hzero, hone, _, _, hx, hy,
      (ring_representation (⟨2#2, 1, rfl⟩ : Capacity 2) 2 Nat).right.right
        s t ⟨_, hs⟩ ⟨_, ht⟩ _ _ hx hy hlt hnear⟩

end System
end Spmc
end LowLatency
