import LowLatency.Spsc.Slots

/-!
# Slot exclusivity

Nothing in the code checks that the two sides touch different slots.  It
follows from the counter invariant, and from the order in which the producer
writes a slot and stores `tail`.
-/

namespace LowLatency
namespace Spsc

open Foundation

namespace System

variable {W : Nat} {cap : Capacity W} {T : Type _}
variable {s s' : System cap T}

/-!
## Order of the producer's stores

Stores of the producer alternate: the slot of position `q` is its store number
`2 * q`, and the `tail` store that accepts the position is number `2 * q + 1`.
-/

structure StoreOrder (s : System cap T) : Prop where
  clock : s.log.storeClock =
    2 * s.log.accepted.length + s.pushPc.stored.length
  writtenAt : forall q, s.log.popped.length ≤ q -> q < s.written.length ->
    s.log.writtenAt (cap.slotOf q) = 2 * q
  tailLength : s.log.tailStoredAt.length = s.log.accepted.length
  tailStoredAt : forall i, i < s.log.accepted.length ->
    s.log.tailStoredAt[i]? = some (2 * i + 1)

namespace StoreOrder

theorem new (cap : Capacity W) (T : Type _) :
    StoreOrder (System.new cap T) where
  clock := rfl
  writtenAt := by
    intro q _ hq
    cases hq
  tailLength := rfl
  tailStoredAt := by
    intro i hi
    cases hi

theorem frame (ho : StoreOrder s)
    (hclock : s'.log.storeClock = s.log.storeClock)
    (hwrittenAt : s'.log.writtenAt = s.log.writtenAt)
    (htailStoredAt : s'.log.tailStoredAt = s.log.tailStoredAt)
    (haccepted : s'.log.accepted = s.log.accepted)
    (hpopped : s.log.popped.length ≤ s'.log.popped.length)
    (hstored : s'.pushPc.stored = s.pushPc.stored) : StoreOrder s' := by
  constructor
  · rw [hclock, haccepted, hstored]
    exact ho.clock
  · intro q hlow hq
    rw [written, haccepted, hstored] at hq
    rw [hwrittenAt]
    exact ho.writtenAt q (Nat.le_trans hpopped hlow) hq
  · rw [htailStoredAt, haccepted]
    exact ho.tailLength
  · rw [htailStoredAt, haccepted]
    exact ho.tailStoredAt

theorem pushWriteSlot (ho : StoreOrder s) (hc : Counters s)
    (h : s.pushWriteSlot = some s') : StoreOrder s' := by
  rcases pushWriteSlot_inv h with ⟨item, hpc, rfl⟩
  have hpush := hc.pushRoom (by rw [hpc]; rfl)
  have hseen := hc.headSeen_le
  have hclock := ho.clock
  rw [hpc] at hclock
  have hstored : s.log.storeClock = 2 * s.log.accepted.length := hclock
  constructor
  · show s.log.storeClock + 1 = 2 * s.log.accepted.length + 1
    rw [hstored]
  · intro q hlow hq
    change q < (s.log.accepted ++ [item]).length at hq
    rw [List.length_append, List.length_singleton] at hq
    show Function.update s.log.writtenAt (s.producer.slot cap)
      s.log.storeClock (cap.slotOf q) = 2 * q
    rw [hc.producer_slot]
    rcases Nat.lt_or_eq_of_le (Nat.le_of_lt_succ hq) with hlt | heq
    · have hlow' : s.log.popped.length ≤ q := hlow
      have hne := cap.slotOf_ne_of_lt hlt (by lia)
      rw [Function.update_of_ne hne]
      apply ho.writtenAt q hlow
      rw [written_eq_accepted (by rw [hpc]; rfl)]
      exact hlt
    · rw [heq, Function.update_self, hstored]
  · exact ho.tailLength
  · exact ho.tailStoredAt

theorem pushStoreTail (ho : StoreOrder s)
    (h : s.pushStoreTail = some s') : StoreOrder s' := by
  rcases pushStoreTail_inv h with ⟨item, hpc, rfl⟩
  have hclock := ho.clock
  rw [hpc] at hclock
  have hstored : s.log.storeClock = 2 * s.log.accepted.length + 1 := hclock
  constructor
  · show s.log.storeClock + 1 = 2 * (s.log.accepted ++ [item]).length + 0
    rw [hstored, List.length_append, List.length_singleton]
    lia
  · intro q hlow hq
    apply ho.writtenAt q hlow
    rw [written, hpc]
    change q < ((s.log.accepted ++ [item]) ++ []).length at hq
    rw [List.append_nil] at hq
    exact hq
  · show (s.log.tailStoredAt ++ [s.log.storeClock]).length =
      (s.log.accepted ++ [item]).length
    rw [List.length_append, List.length_append, ho.tailLength]
    rfl
  · intro i hi
    change i < (s.log.accepted ++ [item]).length at hi
    rw [List.length_append, List.length_singleton] at hi
    show (s.log.tailStoredAt ++ [s.log.storeClock])[i]? = some (2 * i + 1)
    have hlength := ho.tailLength
    rcases Nat.lt_or_eq_of_le (Nat.le_of_lt_succ hi) with hlt | heq
    · rw [List.getElem?_append_left (by lia)]
      exact ho.tailStoredAt i hlt
    · rw [heq, ← hlength, List.getElem?_concat_length, hlength, hstored]

theorem step (ho : StoreOrder s) (hc : Counters s) {a : Action T}
    (h : s.step a = some s') : StoreOrder s' := by
  cases a with
  | pushCall item =>
      rcases pushCall_inv h with ⟨_, hpc, rfl⟩
      refine ho.frame rfl rfl rfl rfl (Nat.le_refl _) ?_
      rw [hpc]
      cases s.producer.looksFull cap <;> simp [PushPc.stored]
  | pushLoadHead i =>
      rcases pushLoadHead_inv h with ⟨item, head, hpc, _, ⟨_, rfl⟩ | ⟨_, rfl⟩⟩
      · exact ho.frame rfl rfl rfl rfl (Nat.le_refl _) (by rw [hpc]; rfl)
      · exact ho.frame rfl rfl rfl rfl (Nat.le_refl _) (by rw [hpc]; rfl)
  | pushWriteSlot => exact ho.pushWriteSlot hc h
  | pushStoreTail => exact ho.pushStoreTail h
  | popCall =>
      rcases popCall_inv h with ⟨_, _, rfl⟩
      exact ho.frame rfl rfl rfl rfl (Nat.le_refl _) rfl
  | popLoadTail i =>
      rcases popLoadTail_inv h with ⟨tail, _, _, ⟨_, rfl⟩ | ⟨_, rfl⟩⟩
      · exact ho.frame rfl rfl rfl rfl (Nat.le_refl _) rfl
      · exact ho.frame rfl rfl rfl rfl (Nat.le_refl _) rfl
  | popReadSlot =>
      rcases popReadSlot_inv h with ⟨_, rfl⟩
      exact ho.frame rfl rfl rfl rfl (Nat.le_refl _) rfl
  | popStoreHead =>
      rcases popStoreHead_inv h with ⟨item, _, rfl⟩
      exact ho.frame rfl rfl rfl rfl (by simp) rfl
  | dropProducer =>
      rcases dropProducer_inv h with ⟨_, _, ⟨_, rfl⟩ | ⟨_, rfl⟩⟩
      · exact ho.frame rfl rfl rfl rfl (Nat.le_refl _) rfl
      · exact ho.frame rfl rfl rfl rfl (Nat.le_refl _) rfl
  | dropConsumer =>
      rcases dropConsumer_inv h with ⟨_, _, ⟨_, rfl⟩ | ⟨_, rfl⟩⟩
      · exact ho.frame rfl rfl rfl rfl (Nat.le_refl _) rfl
      · exact ho.frame rfl rfl rfl rfl (Nat.le_refl _) rfl

theorem reachable (hs : (machine cap T).Reachable s) : StoreOrder s :=
  hs.invariant_of_reachable (StoreOrder.new cap T)
    (fun _ _ _ hreach ho h => ho.step (Counters.reachable hreach) h)

end StoreOrder

/-!
## The two slots
-/

theorem slots_ne (hc : Counters s) (hpush : s.pushPc.pastCheck = true)
    (hpop : s.popPc.pastCheck = true) :
    s.producer.slot cap ≠ s.consumer.slot cap := by
  have hroom := hc.pushRoom hpush
  have hitem := hc.popItem hpop
  have hseen := hc.headSeen_le
  have htail := hc.tailSeen_le
  rw [hc.producer_slot, hc.consumer_slot]
  exact (cap.slotOf_ne_of_lt (by lia) (by lia)).symm

/-- No position of `head..tail` has the slot that the producer may touch. -/
theorem producer_slot_unused (hc : Counters s)
    (hpush : s.pushPc.pastCheck = true) {q : Nat}
    (hlow : s.log.popped.length ≤ q) (hhigh : q < s.log.accepted.length) :
    cap.slotOf q ≠ s.producer.slot cap := by
  have hroom := hc.pushRoom hpush
  have hseen := hc.headSeen_le
  rw [hc.producer_slot]
  exact cap.slotOf_ne_of_lt hhigh (by lia)

theorem writeSlot_not_live (hc : Counters s) (hs : Slots s) {item : T}
    (hpc : s.pushPc = PushPc.writeSlot item) (x : T) :
    s.slots (s.producer.slot cap) ≠ Slot.live x := by
  intro hlive
  rcases hs.owner _ _ hlive with ⟨q, hlow, hhigh, hq⟩
  rw [written_eq_accepted (by rw [hpc]; rfl)] at hhigh
  have hlow' : s.log.popped.length ≤ q :=
    Nat.le_trans (Nat.le_add_right _ _) hlow
  exact producer_slot_unused hc (by rw [hpc]; rfl) hlow' hhigh hq

/--
The consumer's slot holds the oldest accepted item, and that item was written
before the `tail` value that the consumer has cached was stored.
-/
theorem consumer_slot_written (hc : Counters s) (hs : Slots s)
    (ho : StoreOrder s) (hpop : s.popPc.pastCheck = true) :
    exists item time,
      s.log.accepted[s.log.popped.length]? = some item ∧
      (s.slots (s.consumer.slot cap)).read = some item ∧
      s.tail.read? s.tailSeen = some s.consumer.cachedTail ∧
      s.log.tailStoredAt[s.tailSeen - 1]? = some time ∧
      s.log.writtenAt (s.consumer.slot cap) < time := by
  have hitem := hc.popItem hpop
  have htail := hc.tailSeen_le
  have hlt : s.log.popped.length < s.log.accepted.length := by lia
  have hget := List.getElem?_eq_getElem hlt
  have hlength : s.log.accepted.length ≤ s.written.length := by
    rw [written, List.length_append]
    exact Nat.le_add_right _ _
  have hread : s.tail.read? s.tailSeen = some s.consumer.cachedTail := by
    rw [hc.consumerTail]
    exact hc.tailCounts _ (by rw [hc.tailIndex]; exact htail)
  refine ⟨_, _, hget, ?_, hread, ho.tailStoredAt _ (by lia), ?_⟩
  · rw [hc.consumer_slot]
    exact hs.bits _ _ (Nat.le_refl _) (written_of_accepted hget)
  · rw [hc.consumer_slot, ho.writtenAt _ (Nat.le_refl _) (by lia)]
    lia

/--
Between its check and its counter store, the producer owns a slot without an
unread item, and the consumer owns a slot whose item was written before the
`tail` value it relies on; the two slots differ.
-/
theorem slot_exclusivity (hreach : (machine cap T).Reachable s) :
    (s.pushPc.pastCheck = true -> s.popPc.pastCheck = true ->
      s.producer.slot cap ≠ s.consumer.slot cap) ∧
    (s.pushPc.pastCheck = true ->
      (forall q, s.log.popped.length ≤ q -> q < s.log.accepted.length ->
        cap.slotOf q ≠ s.producer.slot cap) ∧
      (forall item, s.pushPc = PushPc.writeSlot item -> forall x,
        s.slots (s.producer.slot cap) ≠ Slot.live x)) ∧
    (s.popPc.pastCheck = true ->
      exists item time,
        s.log.accepted[s.log.popped.length]? = some item ∧
        (s.slots (s.consumer.slot cap)).read = some item ∧
        s.tail.read? s.tailSeen = some s.consumer.cachedTail ∧
        s.log.tailStoredAt[s.tailSeen - 1]? = some time ∧
        s.log.writtenAt (s.consumer.slot cap) < time) := by
  have hc := Counters.reachable hreach
  have hs := Slots.reachable hreach
  refine ⟨slots_ne hc, ?_, ?_⟩
  · intro hpush
    constructor
    · intro q hlow hhigh
      exact producer_slot_unused hc hpush hlow hhigh
    · intro item hpc x
      exact writeSlot_not_live hc hs hpc x
  · exact consumer_slot_written hc hs (StoreOrder.reachable hreach)

/-- Both sides past their checks in a ring of two slots. -/
theorem slot_exclusivity_two_slots :
    exists s, (machine (⟨2#2, 1, rfl⟩ : Capacity 2) Nat).run
        [Action.pushCall 5, Action.pushWriteSlot, Action.pushStoreTail,
          Action.popCall, Action.popLoadTail 1, Action.pushCall 6] = some s ∧
      s.producer.slot ⟨2#2, 1, rfl⟩ ≠ s.consumer.slot ⟨2#2, 1, rfl⟩ ∧
      (forall x, s.slots (s.producer.slot _) ≠ Slot.live x) ∧
      (exists item time,
        s.log.accepted[s.log.popped.length]? = some item ∧
        s.log.tailStoredAt[s.tailSeen - 1]? = some time ∧
        s.log.writtenAt (s.consumer.slot _) < time) := by
  apply Machine.exists_run_of_map (fun s => (s.pushPc, s.popPc))
    (PushPc.writeSlot 6, PopPc.readSlot) (by decide +kernel)
  intro s hrun hshown
  rcases Prod.mk.inj hshown with ⟨hpush, hpop⟩
  rcases slot_exclusivity ⟨_, hrun⟩ with ⟨hne, hproducer, hconsumer⟩
  have hpushPast : s.pushPc.pastCheck = true := by
    rw [hpush]
    rfl
  have hpopPast : s.popPc.pastCheck = true := by
    rw [hpop]
    rfl
  rcases hconsumer hpopPast with ⟨item, time, hget, _, _, htime, hlt⟩
  exact ⟨hne hpushPast hpopPast, (hproducer hpushPast).right 6 hpush,
    item, time, hget, htime, hlt⟩

end System
end Spsc
end LowLatency
