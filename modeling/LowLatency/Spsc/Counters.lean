import LowLatency.Spsc.Steps

/-!
# The counter invariant

Both shared counters and their private copies stand for unbounded counters:
the numbers of accepted and of popped items, and the index of the store each
side saw last.  The invariant orders these numbers.  It is what the tests
`== CAPACITY` and `==` on wrapping words rely on.
-/

namespace LowLatency
namespace Spsc

open Foundation
open Foundation.Linearizability

/-- The full-check has passed and the item is not yet accepted. -/
def PushPc.pastCheck {T : Type _} : PushPc T -> Bool
  | PushPc.writeSlot _ => true
  | PushPc.storeTail _ => true
  | _ => false

/-- The empty-check has passed and the item is not yet popped. -/
def PopPc.pastCheck {T : Type _} : PopPc T -> Bool
  | PopPc.readSlot => true
  | PopPc.storeHead _ => true
  | _ => false

namespace System

variable {W : Nat} {cap : Capacity W} {T : Type _}
variable {s s' : System cap T}

structure Counters (s : System cap T) : Prop where
  tailCounts : s.tail.Counts (BitVec.ofNat W)
  headCounts : s.head.Counts (BitVec.ofNat W)
  tailIndex : s.tail.lastIndex = s.log.accepted.length
  headIndex : s.head.lastIndex = s.log.popped.length
  producerTail : s.producer.cachedTail = BitVec.ofNat W s.log.accepted.length
  producerHead : s.producer.cachedHead = BitVec.ofNat W s.headSeen
  consumerHead : s.consumer.cachedHead = BitVec.ofNat W s.log.popped.length
  consumerTail : s.consumer.cachedTail = BitVec.ofNat W s.tailSeen
  headSeen_le : s.headSeen ≤ s.log.popped.length
  popped_le : s.log.popped.length ≤ s.tailSeen
  tailSeen_le : s.tailSeen ≤ s.log.accepted.length
  room : s.log.accepted.length ≤ s.headSeen + cap.size
  pushRoom : s.pushPc.pastCheck = true ->
    s.log.accepted.length < s.headSeen + cap.size
  popItem : s.popPc.pastCheck = true -> s.log.popped.length < s.tailSeen

namespace Counters

theorem popped_le_accepted (hc : Counters s) :
    s.log.popped.length ≤ s.log.accepted.length :=
  Nat.le_trans hc.popped_le hc.tailSeen_le

theorem accepted_le (hc : Counters s) :
    s.log.accepted.length ≤ s.log.popped.length + cap.size :=
  Nat.le_trans hc.room (Nat.add_le_add_right hc.headSeen_le _)

theorem producer_slot (hc : Counters s) :
    s.producer.slot cap = cap.slotOf s.log.accepted.length := by
  rw [Producer.slot, hc.producerTail]
  rfl

theorem consumer_slot (hc : Counters s) :
    s.consumer.slot cap = cap.slotOf s.log.popped.length := by
  rw [Consumer.slot, hc.consumerHead]
  rfl

theorem tail_current (hc : Counters s) :
    s.tail.current = BitVec.ofNat W s.log.accepted.length := by
  rw [hc.tailCounts.current, hc.tailIndex]

theorem head_current (hc : Counters s) :
    s.head.current = BitVec.ofNat W s.log.popped.length := by
  rw [hc.headCounts.current, hc.headIndex]

theorem new (cap : Capacity W) (T : Type _) :
    Counters (System.new cap T) where
  tailCounts := StoreHistory.counts_empty _
  headCounts := StoreHistory.counts_empty _
  tailIndex := rfl
  headIndex := rfl
  producerTail := rfl
  producerHead := rfl
  consumerHead := rfl
  consumerTail := rfl
  headSeen_le := Nat.le_refl _
  popped_le := Nat.le_refl _
  tailSeen_le := Nat.le_refl _
  room := Nat.zero_le _
  pushRoom := by
    intro hpc
    cases hpc
  popItem := by
    intro hpc
    cases hpc

/-!
## The checks

Under the invariant the wrapping tests decide the unbounded questions.
-/

/-- What the producer's test says about the head it has cached at index `i`. -/
theorem looksFull_iff (hc : Counters s) {i : Nat} {head : BitVec W}
    (hhead : head = BitVec.ofNat W i) (hseen : s.headSeen ≤ i)
    (hle : i ≤ s.log.popped.length) :
    { s.producer with cachedHead := head }.looksFull cap = true <->
      s.log.accepted.length = i + cap.size := by
  have hpopped := hc.popped_le_accepted
  have hroom := hc.room
  exact Producer.looksFull_iff hhead hc.producerTail (by lia) (by lia)

theorem looksEmpty_iff (hc : Counters s) {i : Nat} {tail : BitVec W}
    (htail : tail = BitVec.ofNat W i) (hseen : s.tailSeen ≤ i)
    (hle : i ≤ s.log.accepted.length) :
    { s.consumer with cachedTail := tail }.looksEmpty = true <->
      s.log.popped.length = i := by
  have hpopped := hc.popped_le
  have hroom := hc.accepted_le
  have hsize := cap.size_lt
  exact Consumer.looksEmpty_iff hc.consumerHead htail (by lia) (by lia)

theorem looksFull_cached (hc : Counters s) :
    s.producer.looksFull cap = true <->
      s.log.accepted.length = s.headSeen + cap.size :=
  hc.looksFull_iff hc.producerHead (Nat.le_refl _) hc.headSeen_le

theorem looksEmpty_cached (hc : Counters s) :
    s.consumer.looksEmpty = true <-> s.log.popped.length = s.tailSeen :=
  hc.looksEmpty_iff hc.consumerTail (Nat.le_refl _) hc.tailSeen_le

/-!
## Preservation
-/

theorem pushCall (hc : Counters s) {item : T}
    (h : s.pushCall item = some s') : Counters s' := by
  rcases pushCall_inv h with ⟨_, _, rfl⟩
  refine { hc with pushRoom := ?_ }
  intro hpc
  have hroom := hc.room
  cases hfull : s.producer.looksFull cap with
  | true => simp [hfull, PushPc.pastCheck] at hpc
  | false =>
      have hne : s.log.accepted.length ≠ s.headSeen + cap.size := by
        intro heq
        rw [hc.looksFull_cached.mpr heq] at hfull
        cases hfull
      show s.log.accepted.length < s.headSeen + cap.size
      lia

theorem pushLoadHead (hc : Counters s) {i : Nat}
    (h : s.pushLoadHead i = some s') : Counters s' := by
  rcases pushLoadHead_inv h with ⟨item, head, _, hload, hcase⟩
  rcases hc.headCounts.load hload with ⟨hseen, hlast, hhead⟩
  rw [hc.headIndex] at hlast
  have hfull := hc.looksFull_iff hhead hseen hlast
  have hroom := hc.room
  rcases hcase with ⟨_, rfl⟩ | ⟨hnot, rfl⟩
  · refine { hc with
      producerHead := hhead
      headSeen_le := hlast
      room := Nat.le_trans hroom (Nat.add_le_add_right hseen _)
      pushRoom := ?_ }
    intro hpc
    cases hpc
  · refine { hc with
      producerHead := hhead
      headSeen_le := hlast
      room := Nat.le_trans hroom (Nat.add_le_add_right hseen _)
      pushRoom := ?_ }
    intro _
    have hne : s.log.accepted.length ≠ i + cap.size := by
      intro heq
      rw [hfull.mpr heq] at hnot
      cases hnot
    show s.log.accepted.length < i + cap.size
    lia

theorem pushWriteSlot (hc : Counters s) (h : s.pushWriteSlot = some s') :
    Counters s' := by
  rcases pushWriteSlot_inv h with ⟨item, hpc, rfl⟩
  refine { hc with pushRoom := ?_ }
  intro _
  exact hc.pushRoom (by rw [hpc]; rfl)

theorem pushStoreTail (hc : Counters s) (h : s.pushStoreTail = some s') :
    Counters s' := by
  rcases pushStoreTail_inv h with ⟨item, hpc, rfl⟩
  have hpush := hc.pushRoom (by rw [hpc]; rfl)
  have hseen := hc.tailSeen_le
  have hnext : s.producer.advance.cachedTail =
      BitVec.ofNat W (s.log.accepted.length + 1) := by
    rw [Producer.advance, hc.producerTail, BitVec.ofNat_add_ofNat]
  refine { hc with
    tailCounts := ?_
    tailIndex := ?_
    producerTail := ?_
    tailSeen_le := ?_
    room := ?_
    pushRoom := ?_ }
  · rw [hnext, ← hc.tailIndex]
    exact hc.tailCounts.store
  · simp [hc.tailIndex]
  · simpa using hnext
  · simp only [List.length_append, List.length_singleton]
    lia
  · simp only [List.length_append, List.length_singleton]
    lia
  · intro hidle
    cases hidle

theorem popCall (hc : Counters s) (h : s.popCall = some s') :
    Counters s' := by
  rcases popCall_inv h with ⟨_, _, rfl⟩
  refine { hc with popItem := ?_ }
  intro hpc
  have hpopped := hc.popped_le
  cases hempty : s.consumer.looksEmpty with
  | true => simp [hempty, PopPc.pastCheck] at hpc
  | false =>
      have hne : s.log.popped.length ≠ s.tailSeen := by
        intro heq
        rw [hc.looksEmpty_cached.mpr heq] at hempty
        cases hempty
      show s.log.popped.length < s.tailSeen
      lia

theorem popLoadTail (hc : Counters s) {i : Nat}
    (h : s.popLoadTail i = some s') : Counters s' := by
  rcases popLoadTail_inv h with ⟨tail, _, hload, hcase⟩
  rcases hc.tailCounts.load hload with ⟨hseen, hlast, htail⟩
  rw [hc.tailIndex] at hlast
  have hempty := hc.looksEmpty_iff htail hseen hlast
  have hpopped := hc.popped_le
  rcases hcase with ⟨_, rfl⟩ | ⟨hnot, rfl⟩
  · refine { hc with
      consumerTail := htail
      popped_le := Nat.le_trans hpopped hseen
      tailSeen_le := hlast
      popItem := ?_ }
    intro hpc
    cases hpc
  · refine { hc with
      consumerTail := htail
      popped_le := Nat.le_trans hpopped hseen
      tailSeen_le := hlast
      popItem := ?_ }
    intro _
    have hne : s.log.popped.length ≠ i := by
      intro heq
      rw [hempty.mpr heq] at hnot
      cases hnot
    show s.log.popped.length < i
    lia

theorem popReadSlot (hc : Counters s) (h : s.popReadSlot = some s') :
    Counters s' := by
  rcases popReadSlot_inv h with ⟨hpc, rfl⟩
  refine { hc with popItem := ?_ }
  intro _
  exact hc.popItem (by rw [hpc]; rfl)

theorem popStoreHead (hc : Counters s) (h : s.popStoreHead = some s') :
    Counters s' := by
  rcases popStoreHead_inv h with ⟨item, hpc, rfl⟩
  have hpop := hc.popItem (by rw [hpc]; rfl)
  have hseen := hc.headSeen_le
  have hnext : s.consumer.advance.cachedHead =
      BitVec.ofNat W (s.log.popped.length + 1) := by
    rw [Consumer.advance, hc.consumerHead, BitVec.ofNat_add_ofNat]
  refine { hc with
    headCounts := ?_
    headIndex := ?_
    consumerHead := ?_
    headSeen_le := ?_
    popped_le := ?_
    popItem := ?_ }
  · rw [hnext, ← hc.headIndex]
    exact hc.headCounts.store
  · simp [hc.headIndex]
  · simpa using hnext
  · simp only [List.length_append, List.length_singleton]
    lia
  · simp only [List.length_append, List.length_singleton]
    lia
  · intro hidle
    cases hidle

theorem dropProducer (hc : Counters s) (h : s.dropProducer = some s') :
    Counters s' := by
  rcases dropProducer_inv h with ⟨_, _, ⟨_, rfl⟩ | ⟨_, rfl⟩⟩
  · exact { hc with }
  · exact { hc with }

theorem dropConsumer (hc : Counters s) (h : s.dropConsumer = some s') :
    Counters s' := by
  rcases dropConsumer_inv h with ⟨_, _, ⟨_, rfl⟩ | ⟨_, rfl⟩⟩
  · exact { hc with }
  · exact { hc with }

theorem step (hc : Counters s) {a : Action T} (h : s.step a = some s') :
    Counters s' := by
  cases a with
  | pushCall item => exact hc.pushCall h
  | pushLoadHead i => exact hc.pushLoadHead h
  | pushWriteSlot => exact hc.pushWriteSlot h
  | pushStoreTail => exact hc.pushStoreTail h
  | popCall => exact hc.popCall h
  | popLoadTail i => exact hc.popLoadTail h
  | popReadSlot => exact hc.popReadSlot h
  | popStoreHead => exact hc.popStoreHead h
  | dropProducer => exact hc.dropProducer h
  | dropConsumer => exact hc.dropConsumer h

theorem runFrom (hc : Counters s) {actions : List (Action T)}
    (h : (machine cap T).runFrom s actions = some s') : Counters s' :=
  Machine.runFrom_invariant (fun _ _ _ hc h => hc.step h) hc h

theorem reachable (hs : (machine cap T).Reachable s) : Counters s :=
  hs.invariant (Counters.new cap T) (fun _ _ _ hc h => hc.step h)

end Counters
end System
end Spsc
end LowLatency
