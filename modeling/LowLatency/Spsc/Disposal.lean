import LowLatency.Spsc.Fifo
import LowLatency.Spsc.Returns

/-!
# Disposal of the remaining items

`Queue::drop` recomputes the remaining positions from the two counters.  The
loop is analysed for any window of live slots; the machine then reaches it
with exactly the items that no `pop` has taken.
-/

namespace LowLatency
namespace Spsc

open Foundation

variable {W : Nat} {cap : Capacity W} {T : Type _}

theorem Queue.dropSlots_live {first k : Nat} {items : List T}
    {slots : Fin cap.size -> Slot T} (hsize : items.length ≤ cap.size)
    (hlive : forall i item, items[i]? = some item ->
      slots (cap.slotOf (first + k + i)) = Slot.live item) :
    Queue.dropSlots cap (BitVec.ofNat W first) k items.length slots =
      items.map Slot.live := by
  induction items generalizing k slots with
  | nil => rfl
  | cons item rest ih =>
      have hslot : cap.slotIndex (BitVec.ofNat W first + BitVec.ofNat W k) =
          cap.slotOf (first + k) := by
        rw [BitVec.ofNat_add_ofNat]
        rfl
      have hhead := hlive 0 item rfl
      rw [Nat.add_zero] at hhead
      simp only [List.length_cons] at hsize ⊢
      simp only [Queue.dropSlots, hslot, hhead, List.map_cons]
      congr 1
      apply ih (by lia)
      intro i x hx
      rcases List.getElem?_eq_some_iff.mp hx with ⟨hlt, _⟩
      have hne : cap.slotOf (first + (k + 1) + i) ≠ cap.slotOf (first + k) :=
        (cap.slotOf_ne_of_lt (by lia) (by lia)).symm
      rw [Function.update_of_ne hne]
      have hnext := hlive (i + 1) x hx
      rw [show first + k + (i + 1) = first + (k + 1) + i by lia] at hnext
      exact hnext

namespace System

variable {s s' : System cap T}

theorem queue_drop (hc : Counters s) (hs : Slots s)
    (hpop : s.popPc = PopPc.idle) :
    s.queue.drop =
      (s.log.accepted.drop s.log.popped.length).map Slot.live := by
  have hroom := hc.accepted_le
  have hlength : (s.log.accepted.drop s.log.popped.length).length =
      s.log.accepted.length - s.log.popped.length := List.length_drop
  have htaken : s.taken = s.log.popped.length := by
    rw [taken, hpop]
    rfl
  have hdrop : s.queue.drop =
      Queue.dropSlots cap (BitVec.ofNat W s.log.popped.length) 0
        (s.log.accepted.drop s.log.popped.length).length s.slots := by
    rw [hlength, ← hc.count_eq, ← hc.head_current]
    rfl
  rw [hdrop]
  apply Queue.dropSlots_live (by lia)
  intro i item hitem
  rw [List.getElem?_drop] at hitem
  exact hs.live _ _ (by lia) (written_of_accepted hitem)

/-!
## Handles and the single run of `Queue::drop`
-/

structure Disposal (s : System cap T) : Prop where
  pushIdle : s.producerHandle = false -> s.pushPc = PushPc.idle
  popIdle : s.consumerHandle = false -> s.popPc = PopPc.idle
  alive : s.producerHandle = true ∨ s.consumerHandle = true ->
    s.log.drops = []
  dropped : s.producerHandle = false -> s.consumerHandle = false ->
    s.log.drops =
      [(s.log.accepted.drop s.log.popped.length).map Slot.live]

namespace Disposal

theorem new (cap : Capacity W) (T : Type _) : Disposal (System.new cap T) where
  pushIdle := by
    intro hhandle
    cases hhandle
  popIdle := by
    intro hhandle
    cases hhandle
  alive := fun _ => rfl
  dropped := by
    intro hhandle
    cases hhandle

theorem of_producer (hd : Disposal s) (hhandle : s.producerHandle = true)
    (hproducer : s'.producerHandle = true)
    (hconsumer : s'.consumerHandle = s.consumerHandle)
    (hpop : s'.popPc = s.popPc) (hdrops : s'.log.drops = s.log.drops) :
    Disposal s' := by
  constructor
  · intro hfalse
    rw [hproducer] at hfalse
    cases hfalse
  · rw [hconsumer, hpop]
    exact hd.popIdle
  · intro _
    rw [hdrops]
    exact hd.alive (Or.inl hhandle)
  · intro hfalse
    rw [hproducer] at hfalse
    cases hfalse

theorem of_consumer (hd : Disposal s) (hhandle : s.consumerHandle = true)
    (hconsumer : s'.consumerHandle = true)
    (hproducer : s'.producerHandle = s.producerHandle)
    (hpush : s'.pushPc = s.pushPc) (hdrops : s'.log.drops = s.log.drops) :
    Disposal s' := by
  constructor
  · rw [hproducer, hpush]
    exact hd.pushIdle
  · intro hfalse
    rw [hconsumer] at hfalse
    cases hfalse
  · intro _
    rw [hdrops]
    exact hd.alive (Or.inr hhandle)
  · intro _ hfalse
    rw [hconsumer] at hfalse
    cases hfalse

theorem producer_alive (hd : Disposal s) (hpc : s.pushPc ≠ PushPc.idle) :
    s.producerHandle = true := by
  cases hhandle : s.producerHandle with
  | true => rfl
  | false => exact absurd (hd.pushIdle hhandle) hpc

theorem consumer_alive (hd : Disposal s) (hpc : s.popPc ≠ PopPc.idle) :
    s.consumerHandle = true := by
  cases hhandle : s.consumerHandle with
  | true => rfl
  | false => exact absurd (hd.popIdle hhandle) hpc

theorem dropProducer (hd : Disposal s) (hc : Counters s) (hs : Slots s)
    (h : s.dropProducer = some s') : Disposal s' := by
  rcases dropProducer_inv h with
    ⟨hhandle, hpc, ⟨hother, rfl⟩ | ⟨hother, rfl⟩⟩
  · refine { hd with pushIdle := fun _ => hpc, alive := ?_, dropped := ?_ }
    · intro _
      exact hd.alive (Or.inl hhandle)
    · intro _ hfalse
      rw [hother] at hfalse
      cases hfalse
  · have hpop := hd.popIdle hother
    refine { hd with pushIdle := fun _ => hpc, alive := ?_, dropped := ?_ }
    · intro htrue
      rcases htrue with hfalse | hfalse
      · cases hfalse
      · rw [hother] at hfalse
        cases hfalse
    · intro _ _
      rw [hd.alive (Or.inl hhandle), queue_drop hc hs hpop]
      rfl

theorem dropConsumer (hd : Disposal s) (hc : Counters s) (hs : Slots s)
    (h : s.dropConsumer = some s') : Disposal s' := by
  rcases dropConsumer_inv h with
    ⟨hhandle, hpc, ⟨hother, rfl⟩ | ⟨hother, rfl⟩⟩
  · refine { hd with popIdle := fun _ => hpc, alive := ?_, dropped := ?_ }
    · intro _
      exact hd.alive (Or.inr hhandle)
    · intro hfalse
      rw [hother] at hfalse
      cases hfalse
  · refine { hd with popIdle := fun _ => hpc, alive := ?_, dropped := ?_ }
    · intro htrue
      rcases htrue with hfalse | hfalse
      · rw [hother] at hfalse
        cases hfalse
      · cases hfalse
    · intro _ _
      rw [hd.alive (Or.inr hhandle), queue_drop hc hs hpc]
      rfl

theorem step (hd : Disposal s) (hc : Counters s) (hs : Slots s)
    {a : Action T} (h : s.step a = some s') : Disposal s' := by
  cases a with
  | pushCall item =>
      rcases pushCall_inv h with ⟨hhandle, _, rfl⟩
      exact hd.of_producer hhandle hhandle rfl rfl rfl
  | pushLoadHead i =>
      rcases pushLoadHead_inv h with ⟨item, head, hpc, _, hcase⟩
      have hhandle := hd.producer_alive
        (by rw [hpc]; intro hidle; cases hidle)
      rcases hcase with ⟨_, rfl⟩ | ⟨_, rfl⟩
      · exact hd.of_producer hhandle hhandle rfl rfl rfl
      · exact hd.of_producer hhandle hhandle rfl rfl rfl
  | pushWriteSlot =>
      rcases pushWriteSlot_inv h with ⟨item, hpc, rfl⟩
      have hhandle := hd.producer_alive
        (by rw [hpc]; intro hidle; cases hidle)
      exact hd.of_producer hhandle hhandle rfl rfl rfl
  | pushStoreTail =>
      rcases pushStoreTail_inv h with ⟨item, hpc, rfl⟩
      have hhandle := hd.producer_alive
        (by rw [hpc]; intro hidle; cases hidle)
      exact hd.of_producer hhandle hhandle rfl rfl rfl
  | popCall =>
      rcases popCall_inv h with ⟨hhandle, _, rfl⟩
      exact hd.of_consumer hhandle hhandle rfl rfl rfl
  | popLoadTail i =>
      rcases popLoadTail_inv h with ⟨tail, hpc, _, hcase⟩
      have hhandle := hd.consumer_alive
        (by rw [hpc]; intro hidle; cases hidle)
      rcases hcase with ⟨_, rfl⟩ | ⟨_, rfl⟩
      · exact hd.of_consumer hhandle hhandle rfl rfl rfl
      · exact hd.of_consumer hhandle hhandle rfl rfl rfl
  | popReadSlot =>
      rcases popReadSlot_inv h with ⟨hpc, rfl⟩
      have hhandle := hd.consumer_alive
        (by rw [hpc]; intro hidle; cases hidle)
      exact hd.of_consumer hhandle hhandle rfl rfl rfl
  | popStoreHead =>
      rcases popStoreHead_inv h with ⟨item, hpc, rfl⟩
      have hhandle := hd.consumer_alive
        (by rw [hpc]; intro hidle; cases hidle)
      exact hd.of_consumer hhandle hhandle rfl rfl rfl
  | dropProducer => exact hd.dropProducer hc hs h
  | dropConsumer => exact hd.dropConsumer hc hs h

theorem reachable (hs : (machine cap T).Reachable s) : Disposal s :=
  hs.invariant_of_reachable (Disposal.new cap T)
    (fun _ _ _ hreach hd h =>
      hd.step (Counters.reachable hreach) (Slots.reachable hreach) h)

end Disposal

/--
Once both handles are gone, `Queue::drop` has run once, has destroyed live
slots only, and what it destroyed are the accepted items after the popped ones
in FIFO order.  The accepted items are those of the `push` calls that returned
`None`; the others got their item back.  The popped items are those that `pop`
returned.
-/
theorem disposed_exactly_once (hreach : (machine cap T).Reachable s)
    (hproducer : s.producerHandle = false)
    (hconsumer : s.consumerHandle = false) :
    (exists rest : List T,
      s.log.drops = [rest.map Slot.live] ∧
      s.log.accepted.map some = s.log.popped ++ rest.map some) ∧
    s.log.accepted =
      (s.log.pushReturns.filter (fun r => r.back.isNone)).map
        PushReturn.item ∧
    (forall r, r ∈ s.log.pushReturns -> r.back = none ∨ r.back = some r.item) ∧
    s.log.popped = s.log.popReturns.filterMap PopReturn.item := by
  have hs := Slots.reachable hreach
  have hd := Disposal.reachable hreach
  have hr := Returns.reachable hreach
  refine ⟨?_, hr.accepted, ?_, hr.popped⟩
  · refine ⟨s.log.accepted.drop s.log.popped.length,
      hd.dropped hproducer hconsumer, ?_⟩
    calc s.log.accepted.map some
        = ((s.log.accepted.take s.log.popped.length) ++
            s.log.accepted.drop s.log.popped.length).map some := by
          rw [List.take_append_drop]
      _ = s.log.popped ++
            (s.log.accepted.drop s.log.popped.length).map some := by
          rw [List.map_append, ← hs.popped_eq]
  · intro r hmem
    rcases hr.pushFaithful r hmem with ⟨hback, _⟩ | ⟨hback, _⟩
    · exact Or.inr hback
    · exact Or.inl hback

/-- One slot and one-bit counters: an item popped, one refused, one dropped. -/
theorem disposed_exactly_once_across_wrap :
    exists s, (machine (⟨1#1, 0, rfl⟩ : Capacity 1) Nat).run
        [Action.pushCall 5, Action.pushWriteSlot, Action.pushStoreTail,
          Action.popCall, Action.popLoadTail 1, Action.popReadSlot,
          Action.popStoreHead, Action.pushCall 6, Action.pushLoadHead 1,
          Action.pushWriteSlot, Action.pushStoreTail, Action.pushCall 7,
          Action.pushLoadHead 1, Action.dropConsumer, Action.dropProducer] =
        some s ∧
      (exists rest : List Nat,
        s.log.drops = [rest.map Slot.live] ∧
        s.log.accepted.map some = s.log.popped ++ rest.map some) := by
  apply Machine.exists_run_of_map
    (fun s => (s.producerHandle, s.consumerHandle)) (false, false)
    (by decide +kernel)
  intro s hrun hshown
  rcases Prod.mk.inj hshown with ⟨hproducer, hconsumer⟩
  exact (disposed_exactly_once ⟨_, hrun⟩ hproducer hconsumer).left

end System
end Spsc
end LowLatency
