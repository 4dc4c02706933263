import LowLatency.Spsc.ViewRefinement

/-!
# Every access to the queue is in order

Step by step, the sides keep what they know of each other and who answers for
the memory.  The checks of `push` and `pop` make the slot access safe, and the
strong count makes `Queue::drop` and the release of the memory safe.
-/

namespace LowLatency
namespace Spsc

open Foundation

namespace ViewSystem

variable {W : Nat} {cap : Capacity W} {Client V T : Type}
variable {s s' : ViewSystem cap Client V T} {t : System cap T} {side : Side}

namespace Guarded

/-!
## Steps that leave the queue alone
-/

theorem of_parts {headSeen written tailSeen taken : Nat}
    (hcoverage : Coverage s.threads headSeen written tailSeen taken)
    (hcounted : s.disposal = DropPc.alive ->
      SlotCount s.threads written taken)
    (hcustody : Custody s.threads s.handle s.disposal)
    (hfreed : s.usedFreed = false) (hhead : s.headSeen = headSeen)
    (hwritten : s.written = written) (htail : s.tailSeen = tailSeen)
    (htaken : s.taken = taken) : Guarded s := by
  subst hhead hwritten htail htaken
  exact ⟨hcoverage, hcounted, hcustody, hfreed⟩

theorem learns {m' : Threads Side (Place cap Client) (Place.Val V T)}
    (hg : Guarded s) (hl : Threads.Learns s.threads m' side)
    (hfence : s.disposal ≠ DropPc.fence side) :
    Guarded { s with threads := m' } where
  coverage := hg.coverage.learns hl
  counted halive :=
    (hg.counted halive).of_memory (fun _ => congrFun hl.memory _)
  custody := hg.custody.learns hl hfence
  usedFreed := hg.usedFreed

variable [DecidableEq Client] {place : Place cap Client}

theorem stores {m' : Threads Side (Place cap Client) (Place.Val V T)}
    {msg : Message (Place cap Client) (Place.Val V T place)} (hg : Guarded s)
    (hst : Threads.Stores s.threads m' side place msg)
    (hhead : Place.head ≠ place) (htail : Place.tail ≠ place)
    (hslots : forall j, Place.slot j ≠ place)
    (hcustody : Custody m' s.handle s.disposal) :
    Guarded { s with threads := m' } where
  coverage := hg.coverage.stores hst hhead htail
  counted halive :=
    (hg.counted halive).of_memory (fun j => hst.memory_of_ne (hslots j))
  custody := hcustody
  usedFreed := hg.usedFreed

theorem touch (hg : Guarded s) (hacts : s.disposal.Acts s.handle side) :
    Guarded (s.touch side) := by
  have hall : Guarded { s with
      threads := s.threads.access side (Place.accesses side) () } := by
    apply hg.stores (s.threads.stores_access side (Place.accesses side) ())
    · intro heq
      cases heq
    · intro heq
      cases heq
    · intro j heq
      cases heq
    · exact hg.custody.touch hacts
  refine { hall with usedFreed := ?_ }
  have hfreed : (s.disposal == DropPc.freed) = false :=
    beq_eq_false_iff_ne.mpr hacts.ne_freed
  simp [ViewSystem.touch, hg.usedFreed, hfreed]

theorem clientStore (hg : Guarded s) {x : Client} {v : V}
    (h : s.clientStore side x v = some s') : Guarded s' := by
  rcases clientStore_inv h with ⟨hbetween, rfl⟩
  have hst := s.threads.stores_storeRelease side
    (Place.client x : Place cap Client) v
  apply hg.stores hst
  · intro heq
    cases heq
  · intro heq
    cases heq
  · intro j heq
    cases heq
  · apply hg.custody.stores hst rfl
    · intro heq
      cases heq
    · intro other heq
      cases heq
    · intro hshared
      cases hshared
    · intro hfence
      apply between_disposal hbetween
      rw [hfence]
      rfl

theorem clientLoad (hg : Guarded s) {x : Client} {i : Nat} {v : V}
    (h : s.clientLoad side x i = some (v, s')) : Guarded s' := by
  rcases clientLoad_inv h with ⟨threads, hbetween, hload, rfl⟩
  rcases Threads.loadAcquire_inv hload with ⟨_, _, _, hl, _⟩
  apply hg.learns hl
  intro hfence
  apply between_disposal hbetween
  rw [hfence]
  rfl

/-!
## Steps of the producer
-/

omit [DecidableEq Client] in
theorem ne_fence_of_handle (hg : Guarded s) {owner : Side}
    (hhandle : s.handle side = true) : s.disposal ≠ DropPc.fence owner :=
  (acts_of_handle hg hhandle).right.ne_fence

omit [DecidableEq Client] in
theorem pushCall (hg : Guarded s) {item : T} (h : s.pushCall item = some s') :
    Guarded s' := by
  rcases pushCall_inv h with ⟨hhandle, hpc, rfl⟩
  have hall := hg.learns (s.threads.learns_handOver Side.producer)
    (hg.ne_fence_of_handle hhandle)
  refine of_parts hall.coverage hall.counted hall.custody hall.usedFreed rfl
    ?_ rfl rfl
  simp only [written, hpc]
  cases s.producer.looksFull cap with
  | true | false =>
      rfl

theorem pushLoadHead (hg : Guarded s) (ht : Shows s t)
    (hd : System.Disposal t) {i : Nat} (h : s.pushLoadHead i = some s') :
    Guarded s' := by
  rcases pushLoadHead_inv h with ⟨item, head, threads, hpc, hload, hcase⟩
  rcases producer_acts hg ht hd (by rw [hpc]; intro hidle; cases hidle) with
    ⟨_, hacts⟩
  have hg' := hg.touch hacts
  rcases Threads.loadAcquire_inv hload with ⟨_, _, _, hl, _⟩
  have hall := hg'.learns hl hacts.ne_fence
  have hcoverage := hg'.coverage.loadHead hload
  have hwritten : (s.touch Side.producer).written = s.accepted.length := by
    rw [written]
    simp [ViewSystem.touch, hpc, PushPc.stored]
  rcases hcase with ⟨_, rfl⟩ | ⟨_, rfl⟩
  · exact of_parts hcoverage hall.counted hall.custody hall.usedFreed rfl
      hwritten.symm rfl rfl
  · exact of_parts hcoverage hall.counted hall.custody hall.usedFreed rfl
      hwritten.symm rfl rfl

theorem pushWriteSlot (hg : Guarded s) (ht : Shows s t)
    (hc : System.Counters t) (hd : System.Disposal t)
    (h : s.pushWriteSlot = some s') : Guarded s' := by
  rcases pushWriteSlot_inv h with ⟨item, hpc, rfl⟩
  rcases producer_acts hg ht hd (by rw [hpc]; intro hidle; cases hidle) with
    ⟨halive, hacts⟩
  have hg' := hg.touch hacts
  have hcount := hg'.counted halive
  have hwritten : s.written = s.accepted.length := by
    rw [written, hpc]
    rfl
  have htaken : s.taken ≤ s.written := by
    rw [hwritten, ← ht.taken_eq, ← ht.accepted]
    exact System.taken_le_accepted hc
  have hseen : s.headSeen ≤ s.taken := by
    have hle := hc.headSeen_le
    rw [ht.headSeen, ht.popped] at hle
    exact Nat.le_trans hle (Nat.le_add_right _ _)
  have hroom : s.written < s.headSeen + cap.size := by
    have hpush := hc.pushRoom (by rw [ht.pushPc, hpc]; rfl)
    rw [ht.accepted, ht.headSeen] at hpush
    rw [hwritten]
    exact hpush
  have hcovers := hg'.coverage.covers_writeSlot hcount htaken hroom
  have hslot : s.producer.slot cap = cap.slotOf s.written := by
    rw [ht.writeSlot_eq hc, hwritten]
  rw [hslot]
  rcases hg'.coverage.writeSlot hcount hseen hroom (Slot.live item) with
    ⟨hcoverage, hcounted⟩
  refine of_parts hcoverage (fun _ => hcounted) ?_ hg'.usedFreed rfl ?_ rfl rfl
  · apply hg'.custody.access hacts hcovers
    · intro heq
      cases heq
    · intro other heq
      cases heq
  · show s.accepted.length + 1 = s.written + 1
    rw [hwritten]

theorem pushStoreTail (hg : Guarded s) (ht : Shows s t)
    (hc : System.Counters t) (hd : System.Disposal t)
    (h : s.pushStoreTail = some s') : Guarded s' := by
  rcases pushStoreTail_inv h with ⟨item, hpc, rfl⟩
  rcases producer_acts hg ht hd (by rw [hpc]; intro hidle; cases hidle) with
    ⟨halive, hacts⟩
  have hg' := hg.touch hacts
  have hwritten : s.written = s.accepted.length + 1 := by
    rw [written, hpc]
    rfl
  have hindex := (ht.touch Side.producer).tailIndex hc
  have hst := (s.touch Side.producer).threads.stores_storeRelease Side.producer
    Place.tail s.producer.advance.cachedTail
  refine of_parts (hg'.coverage.storeTail ?_ _) ?_ ?_ hg'.usedFreed rfl ?_ rfl
    rfl
  · rw [hindex]
    exact hwritten.ge
  · intro _
    apply (hg'.counted halive).of_memory
    intro j
    apply hst.memory_of_ne
    intro heq
    cases heq
  · apply hg'.custody.stores hst rfl
    · intro heq
      cases heq
    · intro other heq
      cases heq
    · intro _
      exact hacts
    · exact hacts.ne_fence
  · show (s.accepted ++ [item]).length + 0 = s.written
    rw [hwritten, List.length_append, List.length_singleton]

/-!
## Steps of the consumer
-/

omit [DecidableEq Client] in
theorem popCall (hg : Guarded s) (h : s.popCall = some s') : Guarded s' := by
  rcases popCall_inv h with ⟨hhandle, hpc, rfl⟩
  have hall := hg.learns (s.threads.learns_handOver Side.consumer)
    (hg.ne_fence_of_handle hhandle)
  refine of_parts hall.coverage hall.counted hall.custody hall.usedFreed rfl
    rfl rfl ?_
  simp only [taken, hpc]
  cases s.consumer.looksEmpty with
  | true | false =>
      rfl

theorem popLoadTail (hg : Guarded s) (ht : Shows s t)
    (hd : System.Disposal t) {i : Nat} (h : s.popLoadTail i = some s') :
    Guarded s' := by
  rcases popLoadTail_inv h with ⟨tail, threads, hpc, hload, hcase⟩
  rcases consumer_acts hg ht hd (by rw [hpc]; intro hidle; cases hidle) with
    ⟨_, hacts⟩
  have hg' := hg.touch hacts
  rcases Threads.loadAcquire_inv hload with ⟨_, _, _, hl, _⟩
  have hall := hg'.learns hl hacts.ne_fence
  have hcoverage := hg'.coverage.loadTail hload
  have htaken : (s.touch Side.consumer).taken = s.popped.length := by
    rw [taken]
    simp [ViewSystem.touch, hpc, PopPc.taken]
  rcases hcase with ⟨_, rfl⟩ | ⟨_, rfl⟩
  · exact of_parts hcoverage hall.counted hall.custody hall.usedFreed rfl
      rfl rfl htaken.symm
  · exact of_parts hcoverage hall.counted hall.custody hall.usedFreed rfl
      rfl rfl htaken.symm

theorem popReadSlot (hg : Guarded s) (ht : Shows s t)
    (hc : System.Counters t) (hd : System.Disposal t)
    (h : s.popReadSlot = some s') : Guarded s' := by
  rcases popReadSlot_inv h with ⟨hpc, rfl⟩
  rcases consumer_acts hg ht hd (by rw [hpc]; intro hidle; cases hidle) with
    ⟨halive, hacts⟩
  have hg' := hg.touch hacts
  have hcount := hg'.counted halive
  have htaken : s.taken = s.popped.length := by
    rw [taken, hpc]
    rfl
  have hwritten : s.written ≤ s.taken + cap.size := by
    rw [htaken, ← ht.written_eq, ← ht.popped]
    exact System.written_length_le hc
  have hitem : s.taken < s.tailSeen := by
    have hpop := hc.popItem (by rw [ht.popPc, hpc]; rfl)
    rw [ht.popped, ht.tailSeen] at hpop
    rw [htaken]
    exact hpop
  have hless : s.taken < s.written := by
    have hle := hc.tailSeen_le
    rw [ht.tailSeen, ht.accepted] at hle
    exact Nat.lt_of_lt_of_le hitem
      (Nat.le_trans hle (Nat.le_add_right _ _))
  have hcovers := hg'.coverage.covers_readSlot hcount hwritten hitem
  have hslot : s.consumer.slot cap = cap.slotOf s.taken := by
    rw [ht.readSlot_eq hc, htaken]
  rw [hslot]
  rcases hg'.coverage.readSlot hcount hless
      (s.slotContent Side.consumer (cap.slotOf s.taken)).release with
    ⟨hcoverage, hcounted⟩
  refine of_parts hcoverage (fun _ => hcounted) ?_ hg'.usedFreed rfl rfl rfl ?_
  · apply hg'.custody.access hacts hcovers
    · intro heq
      cases heq
    · intro other heq
      cases heq
  · show s.popped.length + 1 = s.taken + 1
    rw [htaken]

theorem popStoreHead (hg : Guarded s) (ht : Shows s t)
    (hc : System.Counters t) (hd : System.Disposal t)
    (h : s.popStoreHead = some s') : Guarded s' := by
  rcases popStoreHead_inv h with ⟨item, hpc, rfl⟩
  rcases consumer_acts hg ht hd (by rw [hpc]; intro hidle; cases hidle) with
    ⟨halive, hacts⟩
  have hg' := hg.touch hacts
  have htaken : s.taken = s.popped.length + 1 := by
    rw [taken, hpc]
    rfl
  have hindex := (ht.touch Side.consumer).headIndex hc
  have hst := (s.touch Side.consumer).threads.stores_storeRelease Side.consumer
    Place.head s.consumer.advance.cachedHead
  refine of_parts (hg'.coverage.storeHead ?_ _) ?_ ?_ hg'.usedFreed rfl rfl rfl
    ?_
  · rw [hindex]
    exact htaken.ge
  · intro _
    apply (hg'.counted halive).of_memory
    intro j
    apply hst.memory_of_ne
    intro heq
    cases heq
  · apply hg'.custody.stores hst rfl
    · intro heq
      cases heq
    · intro other heq
      cases heq
    · intro _
      exact hacts
    · exact hacts.ne_fence
  · show (s.popped ++ [item]).length + 0 = s.taken
    rw [htaken, List.length_append, List.length_singleton]

/-!
## Steps of `Drop`
-/

theorem dropHandle (hg : Guarded s) (h : s.dropHandle side = some s') :
    Guarded s' := by
  rcases dropHandle_inv h with ⟨hhandle, _, rfl⟩
  rcases acts_of_handle hg hhandle with ⟨halive, hacts⟩
  have hg' := hg.touch hacts
  rcases (s.touch side).threads.stores_updateRelease side Place.strong
      (fun n => n - 1) with ⟨msg, hst, _⟩
  have hcoverage := hg'.coverage.stores hst (by intro heq; cases heq)
    (by intro heq; cases heq)
  refine ⟨hcoverage, ?_, hg'.custody.dropHandle hhandle, hg'.usedFreed⟩
  intro _
  apply (hg'.counted halive).of_memory
  intro j
  apply hst.memory_of_ne
  intro heq
  cases heq

omit [DecidableEq Client] in
theorem dropFence (hg : Guarded s) (h : s.dropFence = some s') :
    Guarded s' := by
  rcases dropFence_inv h with ⟨owner, hdisposal, rfl⟩
  have hcustody := hg.custody
  rw [hdisposal] at hcustody
  refine ⟨hg.coverage.learns (s.threads.learns_fenceAcquire owner), ?_,
    hcustody.dropFence, hg.usedFreed⟩
  intro halive
  cases halive

omit [DecidableEq Client] in
theorem phase {disposal : DropPc W} {destroyed : List (Slot T)}
    (hg : Guarded s) (hrun : s.disposal.RunBy side)
    (hrun' : disposal.RunBy side) :
    Guarded { s with disposal := disposal, destroyed := destroyed } where
  coverage := hg.coverage
  counted heq := absurd heq hrun'.ne_alive
  custody := hg.custody.phase hrun hrun'
  usedFreed := hg.usedFreed

theorem dropLoadHead (hg : Guarded s) {i : Nat}
    (h : s.dropLoadHead i = some s') : Guarded s' := by
  rcases dropLoadHead_inv h with ⟨owner, head, threads, hdisposal, hload, rfl⟩
  have hrun : s.disposal.RunBy owner := by
    rw [hdisposal]
    rfl
  have hacts : s.disposal.Acts s.handle owner := Or.inr hrun
  have hg' := hg.touch hacts
  rcases Threads.loadRelaxed_inv hload with ⟨_, _, _, hl, _⟩
  exact (hg'.learns hl hacts.ne_fence).phase hrun rfl

theorem dropLoadTail (hg : Guarded s) {i : Nat}
    (h : s.dropLoadTail i = some s') : Guarded s' := by
  rcases dropLoadTail_inv h with
    ⟨owner, head, tail, threads, hdisposal, hload, rfl⟩
  have hrun : s.disposal.RunBy owner := by
    rw [hdisposal]
    rfl
  have hacts : s.disposal.Acts s.handle owner := Or.inr hrun
  have hg' := hg.touch hacts
  rcases Threads.loadRelaxed_inv hload with ⟨_, _, _, hl, _⟩
  exact (hg'.learns hl hacts.ne_fence).phase hrun rfl

theorem dropSlot (hg : Guarded s) (h : s.dropSlot = some s') : Guarded s' := by
  rcases dropSlot_inv h with ⟨owner, head, k, remaining, hdisposal, rfl⟩
  have hrun : s.disposal.RunBy owner := by
    rw [hdisposal]
    rfl
  have hacts : s.disposal.Acts s.handle owner := Or.inr hrun
  have hg' := hg.touch hacts
  have hst := (s.touch owner).threads.stores_access owner
    (Place.slot (cap.slotIndex (head + BitVec.ofNat W k)))
    (s.slotContent owner (cap.slotIndex (head + BitVec.ofNat W k))).release
  have hcovers : (s.touch owner).threads.Covers owner
      (Place.slot (cap.slotIndex (head + BitVec.ofNat W k))) :=
    hg'.custody.covers hrun trivial
  have hcustody := hg'.custody.access hacts hcovers
    (by intro heq; cases heq) (by intro other heq; cases heq)
    (s.slotContent owner (cap.slotIndex (head + BitVec.ofNat W k))).release
  have hcoverage := hg'.coverage.stores hst (by intro heq; cases heq)
    (by intro heq; cases heq)
  refine ⟨hcoverage, ?_, hcustody.phase hrun rfl, hg'.usedFreed⟩
  intro halive
  cases halive

theorem dropFree (hg : Guarded s) (h : s.dropFree = some s') : Guarded s' := by
  rcases dropFree_inv h with ⟨owner, head, k, hdisposal, rfl⟩
  have hcustody := hg.custody
  rw [hdisposal] at hcustody
  have hfirst := s.threads.stores_access owner
    (Place.accesses Side.producer) ()
  have hsecond := (s.threads.access owner
    (Place.accesses Side.producer) ()).stores_access owner
      (Place.accesses Side.consumer) ()
  have hcoverage := hg.coverage.stores hfirst (by intro heq; cases heq)
    (by intro heq; cases heq)
  refine ⟨hcoverage.stores hsecond (by intro heq; cases heq)
    (by intro heq; cases heq), ?_, hcustody.dropFree, hg.usedFreed⟩
  intro halive
  cases halive

/-!
## All steps
-/

theorem step (hg : Guarded s) (ht : Shows s t) (hc : System.Counters t)
    (hd : System.Disposal t) {a : ViewAction Client V T}
    (h : s.step a = some s') : Guarded s' := by
  cases a with
  | pushCall item => exact hg.pushCall h
  | pushLoadHead i => exact hg.pushLoadHead ht hd h
  | pushWriteSlot => exact hg.pushWriteSlot ht hc hd h
  | pushStoreTail => exact hg.pushStoreTail ht hc hd h
  | popCall => exact hg.popCall h
  | popLoadTail i => exact hg.popLoadTail ht hd h
  | popReadSlot => exact hg.popReadSlot ht hc hd h
  | popStoreHead => exact hg.popStoreHead ht hc hd h
  | dropHandle side => exact hg.dropHandle h
  | dropFence => exact hg.dropFence h
  | dropLoadHead i => exact hg.dropLoadHead h
  | dropLoadTail i => exact hg.dropLoadTail h
  | dropSlot => exact hg.dropSlot h
  | dropFree => exact hg.dropFree h
  | clientStore side x v => exact hg.clientStore h
  | clientLoad side x i =>
      rcases Option.map_eq_some_iff.mp h with ⟨⟨v, s''⟩, hload, hout⟩
      cases hout
      exact hg.clientLoad hload

end Guarded
end ViewSystem
end Spsc
end LowLatency
