import LowLatency.Spsc.ViewSystem

/-!
# Who answers for the memory of the queue

As long as there are handles, each access to the queue is known to the side that
made it, or was known to the decrement that the side left in the strong count.
The last decrement reads the other one, so that after its fence the dropping
side knows of every access.  From then on it is the only side with access.
-/

namespace LowLatency
namespace Spsc

open Foundation

variable {W : Nat} {cap : Capacity W} {Client V T : Type}

def Place.Shared : Place cap Client -> Prop
  | head => True
  | tail => True
  | strong => False
  | slot _ => True
  | accesses _ => True
  | client _ => False

/-- The side runs the body of `Queue::drop`. -/
def DropPc.RunBy (side : Side) : DropPc W -> Prop
  | alive => False
  | fence _ => False
  | loadHead owner => owner = side
  | loadTail owner _ => owner = side
  | destroy owner _ _ _ => owner = side
  | freed => False

def DropPc.Acts (handle : Side -> Bool) (side : Side) (disposal : DropPc W) :
    Prop :=
  (disposal = alive ∧ handle side = true) ∨ disposal.RunBy side

theorem DropPc.RunBy.ne_alive {side : Side} {disposal : DropPc W}
    (h : disposal.RunBy side) : disposal ≠ DropPc.alive := by
  intro halive
  rw [halive] at h
  exact h

theorem DropPc.Acts.ne_freed {handle : Side -> Bool} {side : Side}
    {disposal : DropPc W} (h : disposal.Acts handle side) :
    disposal ≠ DropPc.freed := by
  intro hfreed
  rw [hfreed] at h
  rcases h with ⟨habsurd, _⟩ | habsurd
  · cases habsurd
  · exact habsurd

theorem DropPc.Acts.ne_fence {handle : Side -> Bool} {side owner : Side}
    {disposal : DropPc W} (h : disposal.Acts handle side) :
    disposal ≠ DropPc.fence owner := by
  intro hfence
  rw [hfence] at h
  rcases h with ⟨habsurd, _⟩ | habsurd
  · cases habsurd
  · exact habsurd

def Side.other : Side -> Side
  | producer => consumer
  | consumer => producer

theorem Side.other_ne (side : Side) : side.other ≠ side := by
  cases side with
  | producer | consumer =>
      intro heq
      cases heq

/-!
## What is accounted for
-/

def spoken (m : Threads Side (Place cap Client) (Place.Val V T))
    (handle : Side -> Bool) (side : Side) : View (Place cap Client) :=
  if handle side then (m.view side).current
  else (m.memory Place.strong).current.view

def known (m : Threads Side (Place cap Client) (Place.Val V T))
    (handle : Side -> Bool) : DropPc W -> View (Place cap Client)
  | DropPc.alive => spoken m handle Side.producer ⊔ spoken m handle Side.consumer
  | DropPc.fence side => (m.view side).current ⊔ (m.view side).acquired
  | DropPc.loadHead side => (m.view side).current
  | DropPc.loadTail side _ => (m.view side).current
  | DropPc.destroy side _ _ _ => (m.view side).current
  | DropPc.freed => fun place => (m.memory place).lastIndex

structure Custody (m : Threads Side (Place cap Client) (Place.Val V T))
    (handle : Side -> Bool) (disposal : DropPc W) : Prop where
  racy : m.racy = false
  own : disposal ≠ DropPc.freed ->
    forall side, m.Covers side (Place.accesses side)
  joint : forall place, place.Shared ->
    (m.memory place).lastIndex ≤ known m handle disposal place
  alive : disposal = DropPc.alive <->
    handle Side.producer = true ∨ handle Side.consumer = true
  count : m.content Place.strong =
    (handle Side.producer).toNat + (handle Side.consumer).toNat

variable {m m' : Threads Side (Place cap Client) (Place.Val V T)}
variable {handle : Side -> Bool} {disposal : DropPc W} {side : Side}

theorem known_alive (m : Threads Side (Place cap Client) (Place.Val V T))
    (handle : Side -> Bool) (side : Side) :
    known m handle (DropPc.alive : DropPc W) =
      spoken m handle side ⊔ spoken m handle side.other := by
  cases side with
  | producer => rfl
  | consumer => exact sup_comm _ _

theorem count_eq (handle : Side -> Bool) (side : Side) :
    (handle Side.producer).toNat + (handle Side.consumer).toNat =
      (handle side).toNat + (handle side.other).toNat := by
  cases side with
  | producer => rfl
  | consumer => exact Nat.add_comm _ _

theorem handle_iff (handle : Side -> Bool) (side : Side) :
    (handle Side.producer = true ∨ handle Side.consumer = true) <->
      (handle side = true ∨ handle side.other = true) := by
  cases side with
  | producer => exact Iff.rfl
  | consumer => exact Or.comm

theorem spoken_le_known (m : Threads Side (Place cap Client) (Place.Val V T))
    (handle : Side -> Bool) (side : Side) :
    spoken m handle side ≤ known m handle DropPc.alive := by
  rw [known_alive m handle side]
  exact le_sup_left

theorem known_of_runBy (h : disposal.RunBy side) :
    known m handle disposal = (m.view side).current := by
  cases disposal with
  | alive | fence | freed =>
      exact absurd h id
  | loadHead | loadTail | destroy =>
      cases h
      rfl

theorem current_le_known (h : disposal.Acts handle side) :
    (m.view side).current ≤ known m handle disposal := by
  rcases h with ⟨rfl, hhandle⟩ | hrun
  · have hspoken := spoken_le_known m handle side
    rw [spoken, if_pos hhandle] at hspoken
    exact hspoken
  · rw [known_of_runBy hrun]

theorem spoken_mono (hg : Threads.Grows m m')
    (hstrong : m'.memory Place.strong = m.memory Place.strong) :
    spoken m handle side ≤ spoken m' handle side := by
  unfold spoken
  rw [hstrong]
  split
  · exact hg.current side
  · exact le_refl _

theorem known_mono (hg : Threads.Grows m m')
    (hothers : forall other, other ≠ side -> m'.view other = m.view other)
    (hstrong : m'.memory Place.strong = m.memory Place.strong)
    (hfence : disposal ≠ DropPc.fence side) :
    known m handle disposal ≤ known m' handle disposal := by
  cases disposal with
  | alive =>
      exact sup_le_sup (spoken_mono hg hstrong) (spoken_mono hg hstrong)
  | fence owner =>
      have hne : owner ≠ side := by
        intro heq
        rw [heq] at hfence
        exact hfence rfl
      rw [known, known, hothers owner hne]
  | loadHead owner | loadTail owner | destroy owner =>
      exact hg.current owner
  | freed =>
      exact hg.lastIndex

namespace Custody

theorem start (clients : Client -> V) :
    Custody (Threads.start Side
      (ViewSystem.initialVal cap T clients)) (fun _ => true)
      DropPc.alive where
  racy := rfl
  own _ _ := Nat.zero_le _
  joint _ _ := Nat.zero_le _
  alive := ⟨fun _ => Or.inl rfl, fun _ => rfl⟩
  count := rfl

/-!
## Steps
-/

theorem learns (h : Custody m handle disposal)
    (hl : Threads.Learns m m' side) (hfence : disposal ≠ DropPc.fence side) :
    Custody m' handle disposal := by
  have hstrong : m'.memory Place.strong = m.memory Place.strong := by
    rw [hl.memory]
  have hknown : known m handle disposal ≤ known m' handle disposal :=
    known_mono hl.grows hl.others hstrong hfence
  refine { h with
    racy := by rw [hl.racy]; exact h.racy
    own := ?_
    joint := ?_
    count := ?_ }
  · intro hfreed other
    exact hl.covers (h.own hfreed other)
  · intro place hplace
    rw [hl.memory]
    exact Nat.le_trans (h.joint place hplace) (hknown place)
  · rw [Threads.content, hl.memory]
    exact h.count

/-- The side that runs `Queue::drop` knows of all accesses to the queue. -/
theorem covers {place : Place cap Client} (h : Custody m handle disposal)
    (hrun : disposal.RunBy side) (hplace : place.Shared) :
    m.Covers side place := by
  have hjoint := h.joint place hplace
  rw [known_of_runBy hrun] at hjoint
  exact hjoint

theorem phase {disposal' : DropPc W} (h : Custody m handle disposal)
    (hrun : disposal.RunBy side) (hrun' : disposal'.RunBy side) :
    Custody m handle disposal' := by
  have hacts : disposal.Acts handle side := Or.inr hrun
  refine { h with
    own := fun _ => h.own hacts.ne_freed
    joint := ?_
    alive := ?_ }
  · rw [known_of_runBy hrun', ← known_of_runBy hrun]
    exact h.joint
  · constructor
    · intro heq
      exact absurd heq hrun'.ne_alive
    · intro hhandle
      exact absurd (h.alive.mpr hhandle) hrun.ne_alive

variable [DecidableEq Client] {place : Place cap Client}

theorem stores {msg : Message (Place cap Client) (Place.Val V T place)}
    (h : Custody m handle disposal) (hst : Threads.Stores m m' side place msg)
    (hracy : m'.racy = m.racy) (hstrong : Place.strong ≠ place)
    (hown : forall other, Place.accesses other = place -> other = side)
    (hacts : place.Shared -> disposal.Acts handle side)
    (hfence : disposal ≠ DropPc.fence side) :
    Custody m' handle disposal := by
  have hstrong' : m'.memory Place.strong = m.memory Place.strong :=
    hst.memory_of_ne hstrong
  have hknown : known m handle disposal ≤ known m' handle disposal :=
    known_mono hst.grows hst.others hstrong' hfence
  refine { h with
    racy := by rw [hracy]; exact h.racy
    own := ?_
    joint := ?_
    count := ?_ }
  · intro hfreed other
    apply hst.covers (h.own hfreed other)
    by_cases heq : Place.accesses other = place
    · exact Or.inl (hown other heq)
    · exact Or.inr heq
  · intro other hother
    rcases eq_or_ne other place with rfl | hne
    · rw [hst.memory, ViewMemory.lastIndex_append_self]
      exact Nat.le_trans hst.seen (current_le_known (hacts hother) _)
    · rw [hst.memory_of_ne hne]
      exact Nat.le_trans (h.joint other hother) (hknown other)
  · rw [Threads.content, hstrong']
    exact h.count

theorem access (h : Custody m handle disposal)
    (hacts : disposal.Acts handle side) (hc : m.Covers side place)
    (hstrong : Place.strong ≠ place)
    (hown : forall other, Place.accesses other = place -> other = side)
    (v : Place.Val V T place) :
    Custody (m.access side place v) handle disposal :=
  h.stores (m.stores_access side place v) (Threads.racy_access hc) hstrong hown
    (fun _ => hacts) hacts.ne_fence

theorem touch (h : Custody m handle disposal)
    (hacts : disposal.Acts handle side) :
    Custody (m.access side (Place.accesses side) ()) handle disposal := by
  apply h.access hacts (h.own hacts.ne_freed side)
  · intro heq
    cases heq
  · intro other heq
    cases heq
    rfl

/-!
## The end of the queue
-/

omit [DecidableEq Client] in
theorem content_strong_iff (h : Custody m handle disposal)
    (hhandle : handle side = true) :
    m.content Place.strong = (1 : Nat) <-> handle side.other = false := by
  have hcount := h.count
  rw [count_eq handle side, hhandle] at hcount
  rw [hcount]
  cases handle side.other with
  | false | true =>
      simp

theorem known_le_dropHandle (h : Custody m handle (DropPc.alive : DropPc W))
    (hhandle : handle side = true) :
    known m handle (DropPc.alive : DropPc W) ≤
      known (m.updateRelease side Place.strong (fun n => n - 1))
        (Function.update handle side false)
        (if m.content Place.strong = (1 : Nat) then DropPc.fence side
          else (DropPc.alive : DropPc W)) := by
  rcases m.stores_updateRelease side Place.strong (fun n => n - 1) with
    ⟨msg, hst, _, hcurrent, _, hacquired, _⟩
  have hlast := h.content_strong_iff hhandle
  have hself : spoken m handle side = (m.view side).current := by
    rw [spoken, if_pos hhandle]
  rw [known_alive m handle side, hself]
  cases hother : handle side.other with
  | false =>
      -- The last decrement reads what the other side has left.
      have hspoken : spoken m handle side.other =
          (m.memory Place.strong).current.view := by
        simp [spoken, hother]
      rw [if_pos (hlast.mpr hother), hspoken]
      exact sup_le_sup hst.current hacquired
  | true =>
      have hmore : m.content Place.strong ≠ (1 : Nat) := by
        intro heq
        rw [hlast.mp heq] at hother
        cases hother
      rw [if_neg hmore, known_alive _ _ side]
      apply sup_le_sup
      · rw [spoken, Function.update_self, if_neg Bool.false_ne_true,
          hst.memory, ViewMemory.current_append_self]
        exact hcurrent
      · rw [spoken, spoken, Function.update_of_ne side.other_ne,
          if_pos hother, if_pos hother]
        exact hst.grows.current side.other

theorem dropHandle (h : Custody m handle disposal) (hhandle : handle side = true) :
    Custody (m.updateRelease side Place.strong (fun n => n - 1))
      (Function.update handle side false)
      (if m.content Place.strong = (1 : Nat) then DropPc.fence side
        else disposal) := by
  rcases m.stores_updateRelease side Place.strong (fun n => n - 1) with
    ⟨msg, hst, hvalue, _, _, _, hracy⟩
  have halive : disposal = DropPc.alive := by
    apply h.alive.mpr
    cases side with
    | producer => exact Or.inl hhandle
    | consumer => exact Or.inr hhandle
  subst halive
  have hlast := h.content_strong_iff hhandle
  have hself : Function.update handle side false side = false :=
    Function.update_self _ _ _
  have hother : Function.update handle side false side.other =
      handle side.other :=
    Function.update_of_ne side.other_ne _ _
  refine ⟨by rw [hracy]; exact h.racy, ?_, ?_, ?_, ?_⟩
  · intro _ owner
    exact hst.covers (h.own (by intro heq; cases heq) owner)
      (Or.inr (by intro heq; cases heq))
  · intro place hplace
    have hne : place ≠ Place.strong := by
      intro heq
      rw [heq] at hplace
      exact hplace
    rw [hst.memory_of_ne hne]
    exact Nat.le_trans (h.joint place hplace)
      (h.known_le_dropHandle hhandle place)
  · rw [handle_iff _ side, hself, hother]
    simp [hlast]
  · have hcontent : (m.updateRelease side Place.strong
        (fun n => n - 1)).content Place.strong =
          (m.content Place.strong : Nat) - 1 := by
      rw [Threads.content, hst.memory, ViewMemory.current_append_self]
      exact hvalue
    have hcount := h.count
    rw [count_eq handle side, hhandle, Bool.toNat_true] at hcount
    rw [hcontent, count_eq _ side, hself, hother, hcount, Bool.toNat_false,
      Nat.add_sub_cancel_left, Nat.zero_add]

omit [DecidableEq Client] in
theorem dropFence (h : Custody m handle (DropPc.fence side)) :
    Custody (m.fenceAcquire side) handle (DropPc.loadHead side : DropPc W) := by
  have hl := m.learns_fenceAcquire side
  refine ⟨h.racy, ?_, ?_, ?_, h.count⟩
  · intro _ other
    exact hl.covers (h.own (by intro heq; cases heq) other)
  · intro place hplace
    refine Nat.le_trans (h.joint place hplace) ?_
    rw [known, known, Threads.fenceAcquire, Threads.view_setView_self]
    exact le_refl _
  · constructor
    · intro heq
      cases heq
    · intro hhandle
      cases h.alive.mpr hhandle

theorem dropFree {head : BitVec W} {k remaining : Nat}
    (h : Custody m handle (DropPc.destroy side head k remaining)) :
    Custody ((m.access side (Place.accesses Side.producer) ()).access side
      (Place.accesses Side.consumer) ()) handle (DropPc.freed : DropPc W) := by
  have hfirst := m.stores_access side (Place.accesses Side.producer) ()
  have hsecond := (m.access side (Place.accesses Side.producer) ()).stores_access
    side (Place.accesses Side.consumer) ()
  have hproducer : m.Covers side (Place.accesses Side.producer) :=
    h.joint _ trivial
  have hconsumer : (m.access side (Place.accesses Side.producer) ()).Covers side
      (Place.accesses Side.consumer) :=
    hfirst.covers (h.joint (Place.accesses Side.consumer) trivial)
      (Or.inl rfl)
  refine ⟨?_, ?_, ?_, ?_, ?_⟩
  · rw [Threads.racy_access hconsumer, Threads.racy_access hproducer]
    exact h.racy
  · intro hfreed
    exact absurd rfl hfreed
  · intro place _
    exact Nat.le_refl _
  · constructor
    · intro heq
      cases heq
    · intro hhandle
      cases h.alive.mpr hhandle
  · rw [Threads.content, hsecond.memory_of_ne (by intro heq; cases heq),
      hfirst.memory_of_ne (by intro heq; cases heq)]
    exact h.count

end Custody
end Spsc
end LowLatency
