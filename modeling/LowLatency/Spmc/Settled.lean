import LowLatency.Spmc.Queue

/-!
# Settled slots

A producer opens a position with its odd store and stamps it with its even
store.  A slot is settled while no later position of the same slot has been
opened: it then holds the value of its position together with the sequence
number of that position.
-/

namespace LowLatency
namespace Spmc

open Foundation

variable {W : Nat} {cap : Capacity W} {m : Nat} {Word : Type _}

/--
The slots of a ring in which the positions below `opened` have been opened and
those below `stamped` have been stamped.
-/
structure Settled [Zero Word] (q : Queue cap m Word)
    (published : List (Payload m Word)) (opened stamped : Nat) : Prop where
  holds : forall p value, p < stamped -> opened ≤ p + cap.size ->
    published[p]? = some value ->
      q.slots (cap.slotOf p) = ⟨BitVec.ofNat W (2 * p + 2), value⟩
  fresh : forall p, opened ≤ p -> p < cap.size ->
    q.slots (cap.slotOf p) = ⟨0#W, fun _ => 0⟩

theorem exists_last_opened (cap : Capacity W) {r opened : Nat}
    (h : r < opened) :
    exists e, Nat.ModEq cap.size e r ∧ r ≤ e ∧ e < opened ∧
      opened ≤ e + cap.size := by
  have hpos := cap.size_pos
  have hdiv := Nat.div_add_mod (opened - 1 - r) cap.size
  have hmod := Nat.mod_lt (opened - 1 - r) hpos
  refine ⟨r + cap.size * ((opened - 1 - r) / cap.size), ?_, by lia, by lia,
    by lia⟩
  exact Nat.add_mul_mod_self_left r cap.size _

theorem lap_of_modEq {e r : Nat} (hmod : Nat.ModEq cap.size e r) (h : r < e) :
    r + cap.size ≤ e := by
  rcases Nat.lt_or_ge e (r + cap.size) with hlt | hge
  · have heq := Words.eq_of_modEq_of_lt_add (Nat.le_of_lt h) hlt hmod.symm
    lia
  · exact hge

namespace Settled

variable [Zero Word] {q : Queue cap m Word}
variable {published : List (Payload m Word)} {opened stamped n : Nat}

theorem new (cap : Capacity W) (m : Nat) (Word : Type _) [Zero Word] :
    Settled (Queue.new cap m Word) [] 0 0 := by
  constructor
  · intro p value hp
    exact absurd hp (Nat.not_lt_zero p)
  · intro p _ _
    rfl

theorem of_slots {q' : Queue cap m Word}
    (hs : Settled q published opened stamped) (h : q'.slots = q.slots) :
    Settled q' published opened stamped := by
  constructor
  · intro p value
    rw [h]
    exact hs.holds p value
  · intro p
    rw [h]
    exact hs.fresh p

theorem append (hs : Settled q published opened stamped)
    (hlength : stamped ≤ published.length) (value : Payload m Word) :
    Settled q (published ++ [value]) opened stamped := by
  constructor
  · intro p v hp hopen hget
    apply hs.holds p v hp hopen
    rw [← hget]
    exact (List.getElem?_append_left (by lia)).symm
  · exact hs.fresh

theorem slot_ne {p : Nat} (hp : p < n) (hopen : n + 1 ≤ p + cap.size) :
    cap.slotOf p ≠ cap.slotOf n :=
  cap.slotOf_ne_of_lt hp (by lia)

theorem fresh_slot_ne {p : Nat} (hp : n + 1 ≤ p) (hsmall : p < cap.size) :
    cap.slotOf p ≠ cap.slotOf n :=
  (cap.slotOf_ne_of_lt hp (by lia)).symm

theorem openSlot (hs : Settled q published n n) (seq : BitVec W) :
    Settled (q.storeSeq (cap.slotOf n) seq) published (n + 1) n := by
  constructor
  · intro p value hp hopen hget
    rw [Queue.storeSeq_slots_of_ne _ _ (slot_ne hp hopen)]
    exact hs.holds p value hp (by lia) hget
  · intro p hopen hsmall
    rw [Queue.storeSeq_slots_of_ne _ _ (fresh_slot_ne hopen hsmall)]
    exact hs.fresh p (by lia) hsmall

theorem writeData (hs : Settled q published (n + 1) n)
    (data : Payload m Word) :
    Settled (q.writeData (cap.slotOf n) data) published (n + 1) n := by
  constructor
  · intro p value hp hopen hget
    rw [Queue.writeData_slots_of_ne _ _ (slot_ne hp hopen)]
    exact hs.holds p value hp hopen hget
  · intro p hopen hsmall
    rw [Queue.writeData_slots_of_ne _ _ (fresh_slot_ne hopen hsmall)]
    exact hs.fresh p hopen hsmall

theorem stamp (hs : Settled q published (n + 1) n) {value : Payload m Word}
    (hget : published[n]? = some value)
    (hdata : (q.slots (cap.slotOf n)).data = value) :
    Settled (q.storeSeq (cap.slotOf n) (BitVec.ofNat W (2 * n + 2)))
      published (n + 1) (n + 1) := by
  constructor
  · intro p v hp hopen hv
    rcases Nat.lt_or_eq_of_le (Nat.le_of_lt_succ hp) with hlt | heq
    · rw [Queue.storeSeq_slots_of_ne _ _ (slot_ne hlt hopen)]
      exact hs.holds p v hlt hopen hv
    · subst heq
      rw [hget] at hv
      rw [Queue.storeSeq_slots_self, hdata, Option.some.inj hv]
  · intro p hopen hsmall
    rw [Queue.storeSeq_slots_of_ne _ _ (fresh_slot_ne hopen hsmall)]
    exact hs.fresh p hopen hsmall

/--
What the slot of a stamped position holds: its own value, or that of a later
position at least one lap ahead, unless that one is being written.
-/
theorem slot_cases (hs : Settled q published opened stamped)
    (hlength : stamped ≤ published.length) (hstamped : stamped ≤ opened)
    {r : Nat} (hr : r < stamped) :
    (opened ≤ r + cap.size ∧
      exists value, published[r]? = some value ∧
        q.slots (cap.slotOf r) = ⟨BitVec.ofNat W (2 * r + 2), value⟩) ∨
    (r + cap.size < opened ∧
      exists e, Nat.ModEq cap.size e r ∧ r + cap.size ≤ e ∧ e < opened ∧
        (e < stamped ->
          exists value, published[e]? = some value ∧
            q.slots (cap.slotOf r) =
              ⟨BitVec.ofNat W (2 * e + 2), value⟩)) := by
  rcases Nat.lt_or_ge (r + cap.size) opened with hlapped | hopen
  · right
    rcases exists_last_opened cap (show r < opened by lia) with
      ⟨e, hmod, hle, hlt, hlast⟩
    have hpos := cap.size_pos
    have hne : r < e := by lia
    refine ⟨hlapped, e, hmod, lap_of_modEq hmod hne, hlt, ?_⟩
    intro he
    have hget := List.getElem?_eq_getElem (show e < published.length by lia)
    refine ⟨_, hget, ?_⟩
    rw [← hs.holds e _ he hlast hget, (cap.slotOf_eq_iff).mpr hmod]
  · left
    have hget := List.getElem?_eq_getElem (show r < published.length by lia)
    exact ⟨hopen, _, hget, hs.holds r _ hr hopen hget⟩

end Settled
end Spmc
end LowLatency
