import LowLatency.Spsc.Counters

/-!
# The slot invariant

A written item is one whose slot write is done, accepted or not; a taken item
is one whose slot read is done, popped or not.  The written items that are not
taken are exactly the contents of the live slots.
-/

namespace LowLatency
namespace Spsc

open Foundation

def PushPc.stored {T : Type _} : PushPc T -> List T
  | PushPc.storeTail item => [item]
  | _ => []

def PopPc.taken {T : Type _} : PopPc T -> Nat
  | PopPc.storeHead _ => 1
  | _ => 0

namespace System

variable {W : Nat} {cap : Capacity W} {T : Type _}
variable {s s' : System cap T}

def written (s : System cap T) : List T :=
  s.log.accepted ++ s.pushPc.stored

def taken (s : System cap T) : Nat :=
  s.log.popped.length + s.popPc.taken

structure Slots (s : System cap T) : Prop where
  bits : forall q item, s.log.popped.length ≤ q -> s.written[q]? = some item ->
    (s.slots (cap.slotOf q)).read = some item
  live : forall q item, s.taken ≤ q -> s.written[q]? = some item ->
    s.slots (cap.slotOf q) = Slot.live item
  owner : forall slot item, s.slots slot = Slot.live item ->
    exists q, s.taken ≤ q ∧ q < s.written.length ∧ cap.slotOf q = slot
  held : forall item, s.popPc = PopPc.storeHead item ->
    s.log.accepted[s.log.popped.length]? = item
  popped_eq : s.log.popped =
    (s.log.accepted.take s.log.popped.length).map some

theorem written_length_le (hc : Counters s) :
    s.written.length ≤ s.log.popped.length + cap.size := by
  have hroom := hc.accepted_le
  have hseen := hc.headSeen_le
  have hpush := hc.pushRoom
  unfold written
  cases hpc : s.pushPc with
  | storeTail item =>
      rw [hpc] at hpush
      have hlt := hpush rfl
      simp only [PushPc.stored, List.length_append, List.length_singleton]
      lia
  | idle => simpa [PushPc.stored] using hroom
  | loadHead item => simpa [PushPc.stored] using hroom
  | writeSlot item => simpa [PushPc.stored] using hroom

theorem written_eq_accepted {s : System cap T} (h : s.pushPc.stored = []) :
    s.written = s.log.accepted := by
  rw [written, h, List.append_nil]

theorem written_of_accepted {s : System cap T} {q : Nat} {item : T}
    (h : s.log.accepted[q]? = some item) : s.written[q]? = some item := by
  exact getElem?_append_of_eq_some h _

theorem old_or_new_of_concat {items : List T} {item x : T} {q : Nat}
    (h : (items ++ [item])[q]? = some x) :
    (q < items.length ∧ items[q]? = some x) ∨
      (q = items.length ∧ x = item) := by
  rcases Nat.lt_or_ge q items.length with hlt | hge
  · rw [List.getElem?_append_left hlt] at h
    exact Or.inl ⟨hlt, h⟩
  · rcases List.getElem?_eq_some_iff.mp h with ⟨hlt, _⟩
    rw [List.length_append, List.length_singleton] at hlt
    have hlast : q = items.length := by lia
    rw [hlast, List.getElem?_concat_length] at h
    exact Or.inr ⟨hlast, (Option.some.inj h).symm⟩

theorem taken_le_accepted (hc : Counters s) :
    s.taken ≤ s.log.accepted.length := by
  have htail := hc.tailSeen_le
  have hpop := hc.popItem
  unfold taken
  cases hpc : s.popPc with
  | storeHead bits =>
      rw [hpc] at hpop
      exact Nat.le_trans (hpop rfl) htail
  | idle => exact hc.popped_le_accepted
  | loadTail => exact hc.popped_le_accepted
  | readSlot => exact hc.popped_le_accepted

namespace Slots

theorem new (cap : Capacity W) (T : Type _) : Slots (System.new cap T) where
  bits := by
    intro q item _ hq
    simp [System.new, written, PushPc.stored] at hq
  live := by
    intro q item _ hq
    simp [System.new, written, PushPc.stored] at hq
  owner := by
    intro slot item hslot
    cases hslot
  held := by
    intro item hpc
    cases hpc
  popped_eq := rfl

theorem frame (hs : Slots s) (hslots : s'.slots = s.slots)
    (hwritten : s'.written = s.written)
    (haccepted : s'.log.accepted = s.log.accepted)
    (hpopped : s'.log.popped = s.log.popped)
    (htaken : s.popPc.taken = 0) (htaken' : s'.popPc.taken = 0) :
    Slots s' := by
  have htakenEq : s'.taken = s.taken := by
    rw [taken, taken, hpopped, htaken, htaken']
  constructor
  · rw [hslots, hwritten, hpopped]
    exact hs.bits
  · rw [hslots, hwritten, htakenEq]
    exact hs.live
  · rw [hslots, hwritten, htakenEq]
    exact hs.owner
  · intro item hpc
    rw [hpc] at htaken'
    cases htaken'
  · rw [haccepted, hpopped]
    exact hs.popped_eq

theorem frame_producer (hs : Slots s) (hslots : s'.slots = s.slots)
    (hstored : s.pushPc.stored = []) (hstored' : s'.pushPc.stored = [])
    (haccepted : s'.log.accepted = s.log.accepted)
    (hpopped : s'.log.popped = s.log.popped) (hpc : s'.popPc = s.popPc) :
    Slots s' := by
  have hwritten : s'.written = s.written := by
    rw [written, written, haccepted, hstored, hstored']
  have htaken : s'.taken = s.taken := by
    rw [taken, taken, hpopped, hpc]
  constructor
  · rw [hslots, hwritten, hpopped]
    exact hs.bits
  · rw [hslots, hwritten, htaken]
    exact hs.live
  · rw [hslots, hwritten, htaken]
    exact hs.owner
  · rw [haccepted, hpopped, hpc]
    exact hs.held
  · rw [haccepted, hpopped]
    exact hs.popped_eq

theorem pushWriteSlot (hs : Slots s) (hc : Counters s)
    (h : s.pushWriteSlot = some s') : Slots s' := by
  rcases pushWriteSlot_inv h with ⟨item, hpc, rfl⟩
  have hpush := hc.pushRoom (by rw [hpc]; rfl)
  have hseen := hc.headSeen_le
  have hwritten : s.written = s.log.accepted :=
    written_eq_accepted (by rw [hpc]; rfl)
  have hslot := hc.producer_slot
  -- A position from the window other than the new one keeps its slot.
  have hother : forall q, s.log.popped.length ≤ q ->
      q < s.log.accepted.length ->
      cap.slotOf q ≠ cap.slotOf s.log.accepted.length := by
    intro q hlow hhigh
    exact cap.slotOf_ne_of_lt hhigh (by lia)
  have hlength : (s.log.accepted ++ [item]).length =
      s.log.accepted.length + 1 :=
    List.length_append
  constructor
  · intro q x hlow hq
    show (Function.update s.slots (s.producer.slot cap) (Slot.live item)
      (cap.slotOf q)).read = some x
    rw [hslot]
    rcases old_or_new_of_concat hq with ⟨hlt, hold⟩ | ⟨rfl, rfl⟩
    · rw [Function.update_of_ne (hother q hlow hlt)]
      exact hs.bits q x hlow (written_of_accepted hold)
    · rw [Function.update_self]
      rfl
  · intro q x hlow hq
    have hlow' : s.log.popped.length ≤ q :=
      Nat.le_trans (Nat.le_add_right _ _) hlow
    show Function.update s.slots (s.producer.slot cap) (Slot.live item)
      (cap.slotOf q) = Slot.live x
    rw [hslot]
    rcases old_or_new_of_concat hq with ⟨hlt, hold⟩ | ⟨rfl, rfl⟩
    · rw [Function.update_of_ne (hother q hlow' hlt)]
      exact hs.live q x hlow (written_of_accepted hold)
    · rw [Function.update_self]
  · intro slot x hlive
    change Function.update s.slots (s.producer.slot cap) (Slot.live item)
      slot = Slot.live x at hlive
    rw [hslot] at hlive
    by_cases heq : slot = cap.slotOf s.log.accepted.length
    · have htaken := taken_le_accepted hc
      refine ⟨s.log.accepted.length, htaken, ?_, heq.symm⟩
      show s.log.accepted.length < (s.log.accepted ++ [item]).length
      lia
    · rw [Function.update_of_ne heq] at hlive
      rcases hs.owner slot x hlive with ⟨q, hlow, hhigh, hq⟩
      rw [hwritten] at hhigh
      refine ⟨q, hlow, ?_, hq⟩
      show q < (s.log.accepted ++ [item]).length
      lia
  · exact hs.held
  · exact hs.popped_eq

theorem pushStoreTail (hs : Slots s) (hc : Counters s)
    (h : s.pushStoreTail = some s') : Slots s' := by
  rcases pushStoreTail_inv h with ⟨item, hpc, rfl⟩
  have hle := hc.popped_le_accepted
  have hstored : s.written = (s.log.accepted ++ [item]) ++ [] := by
    rw [written, hpc, List.append_nil]
    rfl
  constructor
  · intro q x hlow hq
    exact hs.bits q x hlow (by rw [hstored]; exact hq)
  · intro q x hlow hq
    exact hs.live q x hlow (by rw [hstored]; exact hq)
  · intro slot x hlive
    rcases hs.owner slot x hlive with ⟨q, hlow, hhigh, hq⟩
    exact ⟨q, hlow, by rw [hstored] at hhigh; exact hhigh, hq⟩
  · intro bits hpop
    have hlt := hc.popItem (by rw [hpop]; rfl)
    have htail := hc.tailSeen_le
    show (s.log.accepted ++ [item])[s.log.popped.length]? = bits
    rw [List.getElem?_append_left (by lia)]
    exact hs.held bits hpop
  · show s.log.popped =
      ((s.log.accepted ++ [item]).take s.log.popped.length).map some
    rw [List.take_append_of_le_length hle]
    exact hs.popped_eq

theorem popReadSlot (hs : Slots s) (hc : Counters s)
    (h : s.popReadSlot = some s') : Slots s' := by
  rcases popReadSlot_inv h with ⟨hpc, rfl⟩
  have hpop := hc.popItem (by rw [hpc]; rfl)
  have htail := hc.tailSeen_le
  have hwindow := written_length_le hc
  have hslot := hc.consumer_slot
  have htaken : s.taken = s.log.popped.length := by
    rw [taken, hpc]
    rfl
  have hlength : forall {q : Nat} {x : T}, s.written[q]? = some x ->
      q < s.log.popped.length + cap.size := by
    intro q x hq
    rcases List.getElem?_eq_some_iff.mp hq with ⟨hlt, _⟩
    lia
  constructor
  · intro q x hlow hq
    have hold := hs.bits q x hlow hq
    show (Function.update s.slots (s.consumer.slot cap)
      (s.slots (s.consumer.slot cap)).release (cap.slotOf q)).read = some x
    rw [hslot]
    by_cases heq : cap.slotOf q = cap.slotOf s.log.popped.length
    · rw [heq, Function.update_self, Slot.read_release, ← heq]
      exact hold
    · rw [Function.update_of_ne heq]
      exact hold
  · intro q x hlow hq
    have hlow' : s.log.popped.length + 1 ≤ q := hlow
    have hne : cap.slotOf q ≠ cap.slotOf s.log.popped.length := by
      intro heq
      exact cap.slotOf_ne_of_lt hlow' (hlength hq) heq.symm
    show Function.update s.slots (s.consumer.slot cap)
      (s.slots (s.consumer.slot cap)).release (cap.slotOf q) = Slot.live x
    rw [hslot, Function.update_of_ne hne]
    exact hs.live q x (by rw [htaken]; lia) hq
  · intro slot x hlive
    change Function.update s.slots (s.consumer.slot cap)
      (s.slots (s.consumer.slot cap)).release slot = Slot.live x at hlive
    rw [hslot] at hlive
    by_cases heq : slot = cap.slotOf s.log.popped.length
    · rw [heq, Function.update_self] at hlive
      exact absurd hlive (Slot.release_ne_live _ _)
    · rw [Function.update_of_ne heq] at hlive
      rcases hs.owner slot x hlive with ⟨q, hlow, hhigh, hq⟩
      have hne : q ≠ s.log.popped.length := by
        intro hqEq
        rw [← hq, hqEq] at heq
        exact heq rfl
      refine ⟨q, ?_, hhigh, hq⟩
      show s.log.popped.length + 1 ≤ q
      rw [htaken] at hlow
      lia
  · intro item hitem
    have hlt : s.log.popped.length < s.log.accepted.length := by lia
    have hget := List.getElem?_eq_getElem hlt
    have hread := hs.bits _ _ (Nat.le_refl _) (written_of_accepted hget)
    rw [hslot, hread] at hitem
    rw [hget]
    exact PopPc.storeHead.inj hitem
  · exact hs.popped_eq

theorem popStoreHead (hs : Slots s) (hc : Counters s)
    (h : s.popStoreHead = some s') : Slots s' := by
  rcases popStoreHead_inv h with ⟨item, hpc, rfl⟩
  have hpop := hc.popItem (by rw [hpc]; rfl)
  have htail := hc.tailSeen_le
  have hheld := hs.held item hpc
  have hlength : (s.log.popped ++ [item]).length =
      s.log.popped.length + 1 := by simp
  have htaken : s.taken = (s.log.popped ++ [item]).length := by
    rw [taken, hpc, hlength]
    rfl
  constructor
  · intro q x hlow hq
    have hlow' : (s.log.popped ++ [item]).length ≤ q := hlow
    exact hs.bits q x (by lia) hq
  · intro q x hlow hq
    exact hs.live q x (by rw [htaken]; exact hlow) hq
  · intro slot x hlive
    rcases hs.owner slot x hlive with ⟨q, hlow, hhigh, hq⟩
    exact ⟨q, by rw [htaken] at hlow; exact hlow, hhigh, hq⟩
  · intro bits hidle
    cases hidle
  · have hlt : s.log.popped.length < s.log.accepted.length := by lia
    show s.log.popped ++ [item] =
      (s.log.accepted.take (s.log.popped ++ [item]).length).map some
    rw [hlength, List.take_add_one, List.map_append, ← hs.popped_eq, ← hheld]
    rw [List.getElem?_eq_getElem hlt]
    rfl

theorem step (hs : Slots s) (hc : Counters s) {a : Action T}
    (h : s.step a = some s') : Slots s' := by
  cases a with
  | pushCall item =>
      rcases pushCall_inv h with ⟨_, hpc, rfl⟩
      refine hs.frame_producer rfl (by rw [hpc]; rfl) ?_ rfl rfl rfl
      cases s.producer.looksFull cap <;> simp [PushPc.stored]
  | pushLoadHead i =>
      rcases pushLoadHead_inv h with ⟨item, head, hpc, _, ⟨_, rfl⟩ | ⟨_, rfl⟩⟩
      · exact hs.frame_producer rfl (by rw [hpc]; rfl) rfl rfl rfl rfl
      · exact hs.frame_producer rfl (by rw [hpc]; rfl) rfl rfl rfl rfl
  | pushWriteSlot => exact hs.pushWriteSlot hc h
  | pushStoreTail => exact hs.pushStoreTail hc h
  | popCall =>
      rcases popCall_inv h with ⟨_, hpc, rfl⟩
      refine hs.frame rfl rfl rfl rfl (by rw [hpc]; rfl) ?_
      cases s.consumer.looksEmpty <;> simp [PopPc.taken]
  | popLoadTail i =>
      rcases popLoadTail_inv h with ⟨tail, hpc, _, ⟨_, rfl⟩ | ⟨_, rfl⟩⟩
      · exact hs.frame rfl rfl rfl rfl (by rw [hpc]; rfl) rfl
      · exact hs.frame rfl rfl rfl rfl (by rw [hpc]; rfl) rfl
  | popReadSlot => exact hs.popReadSlot hc h
  | popStoreHead => exact hs.popStoreHead hc h
  | dropProducer =>
      rcases dropProducer_inv h with ⟨_, hpc, ⟨_, rfl⟩ | ⟨_, rfl⟩⟩
      · exact hs.frame_producer rfl (by rw [hpc]; rfl) (by rw [hpc]; rfl)
          rfl rfl rfl
      · exact hs.frame_producer rfl (by rw [hpc]; rfl) (by rw [hpc]; rfl)
          rfl rfl rfl
  | dropConsumer =>
      rcases dropConsumer_inv h with ⟨_, hpc, ⟨_, rfl⟩ | ⟨_, rfl⟩⟩
      · exact hs.frame rfl rfl rfl rfl (by rw [hpc]; rfl) (by rw [hpc]; rfl)
      · exact hs.frame rfl rfl rfl rfl (by rw [hpc]; rfl) (by rw [hpc]; rfl)

theorem reachable (hs : (machine cap T).Reachable s) : Slots s :=
  hs.invariant_of_reachable (Slots.new cap T)
    (fun _ _ _ hreach hslots h => hslots.step (Counters.reachable hreach) h)

end Slots
end System
end Spsc
end LowLatency
