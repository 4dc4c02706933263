import LowLatency.Spsc.Slots

/-!
# First in, first out

The counters and the slot contents together hold exactly the accepted items
that no `pop` has taken, in the order in which they were pushed.
-/

namespace LowLatency
namespace Spsc

open Foundation

namespace System

variable {W : Nat} {cap : Capacity W} {T : Type _}
variable {s s' : System cap T}

def contents (s : System cap T) : List (Option T) :=
  (List.range (s.tail.current - s.head.current).toNat).map (fun k =>
    (s.slots (cap.slotIndex (s.head.current + BitVec.ofNat W k))).read)

theorem Counters.count_eq (hc : Counters s) :
    (s.tail.current - s.head.current).toNat =
      s.log.accepted.length - s.log.popped.length := by
  have hroom := hc.accepted_le
  have hsize := cap.size_lt
  rw [hc.tail_current, hc.head_current,
    Words.ofNat_sub_ofNat hc.popped_le_accepted,
    BitVec.toNat_ofNat, Nat.mod_eq_of_lt (by lia)]

theorem Counters.slot_at_offset (hc : Counters s) (k : Nat) :
    cap.slotIndex (s.head.current + BitVec.ofNat W k) =
      cap.slotOf (s.log.popped.length + k) := by
  rw [hc.head_current, BitVec.ofNat_add_ofNat]
  rfl

theorem contents_eq (hc : Counters s) (hs : Slots s) :
    s.contents = (s.log.accepted.drop s.log.popped.length).map some := by
  apply List.ext_getElem?
  intro k
  rw [contents, hc.count_eq, List.getElem?_map, List.getElem?_map,
    List.getElem?_drop]
  rcases Nat.lt_or_ge k (s.log.accepted.length - s.log.popped.length)
    with hlt | hge
  · have hpos : s.log.popped.length + k < s.log.accepted.length := by lia
    have hget := List.getElem?_eq_getElem hpos
    have hbits := hs.bits _ _ (Nat.le_add_right _ k) (written_of_accepted hget)
    rw [List.getElem?_range hlt, Option.map_some, hc.slot_at_offset, hbits, hget]
    rfl
  · rw [List.getElem?_eq_none (by simpa using hge),
      List.getElem?_eq_none (by lia)]
    rfl

theorem popped_take (hs : Slots s) :
    s.log.popped <+: s.log.accepted.map some := by
  rw [hs.popped_eq, List.map_take]
  exact List.take_prefix _ _

theorem readSlot_live (hc : Counters s) (hs : Slots s)
    (hpc : s.popPc = PopPc.readSlot) :
    exists item,
      s.slots (s.consumer.slot cap) = Slot.live item ∧
        s.log.accepted[s.log.popped.length]? = some item := by
  have hpop := hc.popItem (by rw [hpc]; rfl)
  have htail := hc.tailSeen_le
  have hlt : s.log.popped.length < s.log.accepted.length := by lia
  have hget := List.getElem?_eq_getElem hlt
  have htaken : s.taken ≤ s.log.popped.length := by
    rw [taken, hpc]
    exact Nat.le_refl _
  rw [hc.consumer_slot]
  exact ⟨_, hs.live _ _ htaken (written_of_accepted hget), hget⟩

/--
In every reachable state the popped items are a prefix of the accepted items,
the slots of the positions `head..tail` hold the rest, at most `CAPACITY` of
them, and a slot about to be read owns an accepted item not yet taken.
-/
theorem fifo (hreach : (machine cap T).Reachable s) :
    s.log.popped <+: s.log.accepted.map some ∧
      s.contents = (s.log.accepted.drop s.log.popped.length).map some ∧
      s.contents.length ≤ cap.size ∧
      (s.popPc = PopPc.readSlot ->
        exists item,
          s.slots (s.consumer.slot cap) = Slot.live item ∧
            s.log.accepted[s.log.popped.length]? = some item) := by
  have hc := Counters.reachable hreach
  have hs := Slots.reachable hreach
  have hcontents := contents_eq hc hs
  refine ⟨popped_take hs, hcontents, ?_, readSlot_live hc hs⟩
  have hroom := hc.accepted_le
  rw [hcontents, List.length_map, List.length_drop]
  lia

/-- One slot and one-bit counters: the second item sits across the wrap. -/
theorem fifo_across_wrap :
    exists s, (machine (⟨1#1, 0, rfl⟩ : Capacity 1) Nat).run
        [Action.pushCall 5, Action.pushWriteSlot, Action.pushStoreTail,
          Action.popCall, Action.popLoadTail 1, Action.popReadSlot,
          Action.popStoreHead, Action.pushCall 6, Action.pushLoadHead 1,
          Action.pushWriteSlot, Action.pushStoreTail, Action.popCall,
          Action.popLoadTail 2] = some s ∧
      s.log.popped = [some 5] ∧
      s.log.popped <+: s.log.accepted.map some ∧
      s.contents = (s.log.accepted.drop s.log.popped.length).map some ∧
      (exists item,
        s.slots (s.consumer.slot _) = Slot.live item ∧
          s.log.accepted[s.log.popped.length]? = some item) := by
  apply Machine.exists_run_of_map (fun s => (s.popPc, s.log.popped))
    (PopPc.readSlot, [some 5]) (by decide +kernel)
  intro s hrun hshown
  rcases Prod.mk.inj hshown with ⟨hpc, hpopped⟩
  rcases fifo ⟨_, hrun⟩ with ⟨htaken, hcontents, _, hread⟩
  exact ⟨hpopped, htaken, hcontents, hread hpc⟩

end System
end Spsc
end LowLatency
