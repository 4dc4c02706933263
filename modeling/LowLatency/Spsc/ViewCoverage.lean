import LowLatency.Spsc.ViewSystem
import LowLatency.Spsc.Slots

/-!
# What the two sides know of each other

The slot of position `p` is written and read once in each lap, so that both
accesses have a fixed place in the history of the slot.  A store of `tail`
carries the writes of all positions before it, and a store of `head` the reads.
This is enough for each side to know of every access to the slot it turns to.
-/

namespace LowLatency
namespace Spsc

open Foundation

variable {W : Nat} {cap : Capacity W} {Client V T : Type}

/-!
## Accesses to the slots
-/

def writeIndex (cap : Capacity W) (p : Nat) : Nat :=
  2 * (p / cap.size) + 1

def readIndex (cap : Capacity W) (p : Nat) : Nat :=
  2 * (p / cap.size) + 2

def Writes (n : Nat) (view : View (Place cap Client)) : Prop :=
  forall p, p < n -> writeIndex cap p ≤ view (Place.slot (cap.slotOf p))

def Reads (n : Nat) (view : View (Place cap Client)) : Prop :=
  forall p, p < n -> readIndex cap p ≤ view (Place.slot (cap.slotOf p))

theorem Writes.mono {n n' : Nat} {view view' : View (Place cap Client)}
    (h : Writes n view) (hn : n' ≤ n) (hle : view ≤ view') : Writes n' view' :=
  fun p hp => Nat.le_trans (h p (Nat.lt_of_lt_of_le hp hn)) (hle _)

theorem Reads.mono {n n' : Nat} {view view' : View (Place cap Client)}
    (h : Reads n view) (hn : n' ≤ n) (hle : view ≤ view') : Reads n' view' :=
  fun p hp => Nat.le_trans (h p (Nat.lt_of_lt_of_le hp hn)) (hle _)

theorem Writes.succ {n : Nat} {view : View (Place cap Client)}
    (h : Writes n view)
    (hn : writeIndex cap n ≤ view (Place.slot (cap.slotOf n))) :
    Writes (n + 1) view := by
  intro p hp
  rcases Nat.lt_or_eq_of_le (Nat.le_of_lt_succ hp) with hlt | rfl
  · exact h p hlt
  · exact hn

theorem Reads.succ {n : Nat} {view : View (Place cap Client)}
    (h : Reads n view)
    (hn : readIndex cap n ≤ view (Place.slot (cap.slotOf n))) :
    Reads (n + 1) view := by
  intro p hp
  rcases Nat.lt_or_eq_of_le (Nat.le_of_lt_succ hp) with hlt | rfl
  · exact h p hlt
  · exact hn

def SlotCount (m : Threads Side (Place cap Client) (Place.Val V T))
    (written taken : Nat) : Prop :=
  forall j, (m.memory (Place.slot j)).lastIndex =
    cap.visits j written + cap.visits j taken

theorem SlotCount.of_memory
    {m m' : Threads Side (Place cap Client) (Place.Val V T)}
    {written taken : Nat} (h : SlotCount m written taken)
    (hslots : forall j, m'.memory (Place.slot j) = m.memory (Place.slot j)) :
    SlotCount m' written taken := by
  intro j
  rw [hslots]
  exact h j

/-!
## Coverage
-/

structure Coverage (m : Threads Side (Place cap Client) (Place.Val V T))
    (headSeen written tailSeen taken : Nat) : Prop where
  headSeen_le : headSeen ≤ (m.view Side.producer).current Place.head
  tailSeen_le : tailSeen ≤ (m.view Side.consumer).current Place.tail
  ownTail : m.Covers Side.producer Place.tail
  ownHead : m.Covers Side.consumer Place.head
  headCarries : (m.memory Place.head).Each (fun n msg => Reads n msg.view)
  tailCarries : (m.memory Place.tail).Each (fun n msg => Writes n msg.view)
  producerWrites : Writes written (m.view Side.producer).current
  producerReads : Reads headSeen (m.view Side.producer).current
  consumerWrites : Writes tailSeen (m.view Side.consumer).current
  consumerReads : Reads taken (m.view Side.consumer).current

variable {m m' : Threads Side (Place cap Client) (Place.Val V T)}
variable {headSeen written tailSeen taken : Nat}

namespace Coverage

theorem start (clients : Client -> V) :
    Coverage (Threads.start Side
      (ViewSystem.initialVal cap T clients)) 0 0 0 0 where
  headSeen_le := Nat.zero_le _
  tailSeen_le := Nat.zero_le _
  ownTail := Nat.zero_le _
  ownHead := Nat.zero_le _
  headCarries := StoreHistory.each_initial
    (fun p hp => absurd hp (Nat.not_lt_zero p))
  tailCarries := StoreHistory.each_initial
    (fun p hp => absurd hp (Nat.not_lt_zero p))
  producerWrites p hp := absurd hp (Nat.not_lt_zero p)
  producerReads p hp := absurd hp (Nat.not_lt_zero p)
  consumerWrites p hp := absurd hp (Nat.not_lt_zero p)
  consumerReads p hp := absurd hp (Nat.not_lt_zero p)

theorem grows (h : Coverage m headSeen written tailSeen taken)
    (hg : Threads.Grows m m')
    (hhead : m'.memory Place.head = m.memory Place.head)
    (htail : m'.memory Place.tail = m.memory Place.tail) :
    Coverage m' headSeen written tailSeen taken := by
  constructor
  · exact Nat.le_trans h.headSeen_le (hg.current _ _)
  · exact Nat.le_trans h.tailSeen_le (hg.current _ _)
  · rw [Threads.Covers, htail]
    exact Nat.le_trans h.ownTail (hg.current _ _)
  · rw [Threads.Covers, hhead]
    exact Nat.le_trans h.ownHead (hg.current _ _)
  · rw [hhead]
    exact h.headCarries
  · rw [htail]
    exact h.tailCarries
  · exact h.producerWrites.mono (Nat.le_refl _) (hg.current _)
  · exact h.producerReads.mono (Nat.le_refl _) (hg.current _)
  · exact h.consumerWrites.mono (Nat.le_refl _) (hg.current _)
  · exact h.consumerReads.mono (Nat.le_refl _) (hg.current _)

theorem learns (h : Coverage m headSeen written tailSeen taken) {side : Side}
    (hl : Threads.Learns m m' side) :
    Coverage m' headSeen written tailSeen taken :=
  h.grows hl.grows (by rw [hl.memory]) (by rw [hl.memory])

/-!
## Accesses without a race
-/

theorem covers_writeSlot (h : Coverage m headSeen written tailSeen taken)
    (hcount : SlotCount m written taken) (htaken : taken ≤ written)
    (hroom : written < headSeen + cap.size) :
    m.Covers Side.producer (Place.slot (cap.slotOf written)) := by
  rw [Threads.Covers, hcount, cap.visits_slotOf]
  have hle : cap.visits (cap.slotOf written) taken ≤ written / cap.size := by
    apply cap.visits_le
    rw [cap.positionAt_slotOf]
    exact htaken
  rcases Nat.eq_zero_or_pos (written / cap.size) with hzero | hpos
  · lia
  · -- The lap before, which the producer knows to be read.
    have hlap : cap.positionAt (cap.slotOf written) (written / cap.size - 1) +
        cap.size = written := by
      rw [← cap.positionAt_succ, Nat.sub_add_cancel hpos,
        cap.positionAt_slotOf]
    have hread := h.producerReads
      (cap.positionAt (cap.slotOf written) (written / cap.size - 1)) (by lia)
    rw [cap.slotOf_positionAt, readIndex, cap.positionAt_div] at hread
    lia

theorem covers_readSlot (h : Coverage m headSeen written tailSeen taken)
    (hcount : SlotCount m written taken)
    (hwritten : written ≤ taken + cap.size) (hitem : taken < tailSeen) :
    m.Covers Side.consumer (Place.slot (cap.slotOf taken)) := by
  rw [Threads.Covers, hcount, cap.visits_slotOf]
  have hle : cap.visits (cap.slotOf taken) written ≤ taken / cap.size + 1 := by
    apply cap.visits_le
    rw [cap.positionAt_succ, cap.positionAt_slotOf]
    exact hwritten
  have hwrite := h.consumerWrites taken hitem
  rw [writeIndex] at hwrite
  lia

/-!
## Steps
-/

variable [DecidableEq Client]

theorem stores (h : Coverage m headSeen written tailSeen taken) {side : Side}
    {place : Place cap Client}
    {msg : Message (Place cap Client) (Place.Val V T place)}
    (hst : Threads.Stores m m' side place msg)
    (hhead : Place.head ≠ place) (htail : Place.tail ≠ place) :
    Coverage m' headSeen written tailSeen taken :=
  h.grows hst.grows (hst.memory_of_ne hhead) (hst.memory_of_ne htail)

theorem loadHead (h : Coverage m headSeen written tailSeen taken) {i : Nat}
    {head : BitVec W}
    (hload : m.loadAcquire Side.producer Place.head i = some (head, m')) :
    Coverage m' i written tailSeen taken := by
  rcases Threads.loadAcquire_inv hload with ⟨msg, hmsg, _, hl, hview⟩
  have hcarries := (h.headCarries.load hmsg).right.right
  have hall := h.learns hl
  refine { hall with headSeen_le := ?_, producerReads := ?_ }
  · rw [hview]
    exact ThreadView.index_le_loadAcquire _ _ _ _
  · rw [hview]
    exact hcarries.mono (Nat.le_refl _)
      (ThreadView.view_le_loadAcquire _ _ _ _)

theorem loadTail (h : Coverage m headSeen written tailSeen taken) {i : Nat}
    {tail : BitVec W}
    (hload : m.loadAcquire Side.consumer Place.tail i = some (tail, m')) :
    Coverage m' headSeen written i taken := by
  rcases Threads.loadAcquire_inv hload with ⟨msg, hmsg, _, hl, hview⟩
  have hcarries := (h.tailCarries.load hmsg).right.right
  have hall := h.learns hl
  refine { hall with tailSeen_le := ?_, consumerWrites := ?_ }
  · rw [hview]
    exact ThreadView.index_le_loadAcquire _ _ _ _
  · rw [hview]
    exact hcarries.mono (Nat.le_refl _)
      (ThreadView.view_le_loadAcquire _ _ _ _)

theorem storeTail (h : Coverage m headSeen written tailSeen taken)
    (htail : (m.memory Place.tail).lastIndex < written) (tail : BitVec W) :
    Coverage (m.storeRelease Side.producer Place.tail tail) headSeen written
      tailSeen taken := by
  have hst := m.stores_storeRelease Side.producer Place.tail tail
  have hhead : (m.storeRelease Side.producer Place.tail tail).memory
      Place.head = m.memory Place.head :=
    hst.memory_of_ne (by intro hne; cases hne)
  have hg := hst.grows
  constructor
  · exact Nat.le_trans h.headSeen_le (hg.current _ _)
  · exact Nat.le_trans h.tailSeen_le (hg.current _ _)
  · exact hst.covers h.ownTail (Or.inl rfl)
  · exact hst.covers h.ownHead (Or.inr (by intro hne; cases hne))
  · rw [hhead]
    exact h.headCarries
  · rw [hst.memory, ViewMemory.append_self]
    apply h.tailCarries.store
    exact h.producerWrites.mono htail le_sup_left
  · exact h.producerWrites.mono (Nat.le_refl _) (hg.current _)
  · exact h.producerReads.mono (Nat.le_refl _) (hg.current _)
  · exact h.consumerWrites.mono (Nat.le_refl _) (hg.current _)
  · exact h.consumerReads.mono (Nat.le_refl _) (hg.current _)

theorem storeHead (h : Coverage m headSeen written tailSeen taken)
    (hhead : (m.memory Place.head).lastIndex < taken) (head : BitVec W) :
    Coverage (m.storeRelease Side.consumer Place.head head) headSeen written
      tailSeen taken := by
  have hst := m.stores_storeRelease Side.consumer Place.head head
  have htail : (m.storeRelease Side.consumer Place.head head).memory
      Place.tail = m.memory Place.tail :=
    hst.memory_of_ne (by intro hne; cases hne)
  have hg := hst.grows
  constructor
  · exact Nat.le_trans h.headSeen_le (hg.current _ _)
  · exact Nat.le_trans h.tailSeen_le (hg.current _ _)
  · exact hst.covers h.ownTail (Or.inr (by intro hne; cases hne))
  · exact hst.covers h.ownHead (Or.inl rfl)
  · rw [hst.memory, ViewMemory.append_self]
    apply h.headCarries.store
    exact h.consumerReads.mono hhead le_sup_left
  · rw [htail]
    exact h.tailCarries
  · exact h.producerWrites.mono (Nat.le_refl _) (hg.current _)
  · exact h.producerReads.mono (Nat.le_refl _) (hg.current _)
  · exact h.consumerWrites.mono (Nat.le_refl _) (hg.current _)
  · exact h.consumerReads.mono (Nat.le_refl _) (hg.current _)

theorem slotCount_access {side : Side} {j : Fin cap.size} {v : Slot T}
    {written' taken' : Nat} (hcount : SlotCount m written taken)
    (hself : cap.visits j written' + cap.visits j taken' =
      cap.visits j written + cap.visits j taken + 1)
    (hother : forall k, k ≠ j -> cap.visits k written' + cap.visits k taken' =
      cap.visits k written + cap.visits k taken) :
    SlotCount (m.access side (Place.slot j) v) written' taken' := by
  have hst := m.stores_access side (Place.slot j) v
  intro k
  rcases eq_or_ne k j with rfl | hk
  · rw [hst.memory, ViewMemory.lastIndex_append_self, ViewMemory.next, hcount,
      hself]
  · have hne : Place.slot k ≠ (Place.slot j : Place cap Client) := by
      intro heq
      cases heq
      exact hk rfl
    rw [hst.memory_of_ne hne, hcount, hother k hk]

theorem writeSlot (h : Coverage m headSeen written tailSeen taken)
    (hcount : SlotCount m written taken) (hseen : headSeen ≤ taken)
    (hroom : written < headSeen + cap.size) (v : Slot T) :
    Coverage (m.access Side.producer (Place.slot (cap.slotOf written)) v)
        headSeen (written + 1) tailSeen taken ∧
      SlotCount (m.access Side.producer (Place.slot (cap.slotOf written)) v)
        (written + 1) taken := by
  have hst := m.stores_access Side.producer
    (Place.slot (cap.slotOf written)) v
  have hall := h.stores hst (by intro hne; cases hne) (by intro hne; cases hne)
  constructor
  · refine { hall with producerWrites := hall.producerWrites.succ ?_ }
    refine Nat.le_trans ?_ hst.seen
    have hlap := cap.lap_le_visits
      (show written < taken + cap.size by lia)
    rw [ViewMemory.next, hcount, cap.visits_slotOf, writeIndex]
    lia
  · apply slotCount_access hcount
    · rw [cap.visits_slotOf_succ, cap.visits_slotOf]
      lia
    · intro k hk
      rw [cap.visits_succ_of_ne hk]

theorem readSlot (h : Coverage m headSeen written tailSeen taken)
    (hcount : SlotCount m written taken) (htaken : taken < written)
    (v : Slot T) :
    Coverage (m.access Side.consumer (Place.slot (cap.slotOf taken)) v)
        headSeen written tailSeen (taken + 1) ∧
      SlotCount (m.access Side.consumer (Place.slot (cap.slotOf taken)) v)
        written (taken + 1) := by
  have hst := m.stores_access Side.consumer (Place.slot (cap.slotOf taken)) v
  have hall := h.stores hst (by intro hne; cases hne) (by intro hne; cases hne)
  constructor
  · refine { hall with consumerReads := hall.consumerReads.succ ?_ }
    refine Nat.le_trans ?_ hst.seen
    have hlap := cap.lap_lt_visits_iff.mpr htaken
    rw [ViewMemory.next, hcount, cap.visits_slotOf, readIndex]
    lia
  · apply slotCount_access hcount
    · rw [cap.visits_slotOf_succ, cap.visits_slotOf]
      lia
    · intro k hk
      rw [cap.visits_succ_of_ne hk]

end Coverage
end Spsc
end LowLatency
