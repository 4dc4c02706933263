import LowLatency.Spmc.RelaxedSystem
import LowLatency.Spmc.Ring

/-!
# What the stores of the ring carry

The stores of a slot belong to its positions, lap after lap.  An even store of
`seq` carries the words of its position, a word carries the odd store of its
position, and a store of `write_cursor` carries the even stores of all positions
before it.
-/

namespace LowLatency
namespace Spmc

open Foundation

variable {W : Nat} {cap : Capacity W} {m : Nat} {Word : Type}

/-!
## What the stores are
-/

def stamp (cap : Capacity W) (j : Fin cap.size) : Nat -> Nat
  | 0 => 0
  | k + 1 => 2 * cap.positionAt j (k / 2) + 1 + k % 2

theorem stamp_odd (j : Fin cap.size) (u : Nat) :
    stamp cap j (2 * u + 1) = 2 * cap.positionAt j u + 1 := by
  rw [stamp, show 2 * u / 2 = u by lia]
  lia

theorem stamp_even (j : Fin cap.size) (u : Nat) :
    stamp cap j (2 * u + 2) = 2 * cap.positionAt j u + 2 := by
  rw [stamp, show (2 * u + 1) / 2 = u by lia]
  lia

def stampIndex (cap : Capacity W) (p : Nat) : Nat :=
  2 * (p / cap.size) + 2

def Stamped (cap : Capacity W) (n : Nat) (view : View (Place cap m)) : Prop :=
  forall p, p < n -> stampIndex cap p ≤ view (Place.seq (cap.slotOf p))

theorem Stamped.mono {n : Nat} {view view' : View (Place cap m)}
    (h : Stamped cap n view) (hle : view ≤ view') : Stamped cap n view' :=
  fun p hp => Nat.le_trans (h p hp) (hle _)

/-- The store at index `u` of a word belongs to the slot's position in lap `u - 1`. -/
def WordOk (published : List (Payload m Word)) (j : Fin cap.size) (w : Fin m)
    (u : Nat) (word : Word) : Prop :=
  forall lap, u = lap + 1 -> exists value,
    published[cap.positionAt j lap]? = some value ∧ word = value w

def StoreOk (cap : Capacity W) (published : List (Payload m Word)) :
    (place : Place cap m) -> Nat ->
      Message (Place cap m) (Place.Val Word place) -> Prop
  | Place.writeCursor, n, msg =>
      msg.value = BitVec.ofNat W n ∧ Stamped cap n msg.view
  | Place.seq j, k, msg =>
      msg.value = BitVec.ofNat W (stamp cap j k) ∧
        (Place.slot j).CarriesWords k msg.view
  | Place.word j w, u, msg =>
      WordOk published j w u msg.value ∧ (Place.slot j).CarriesOdd u msg.view

theorem StoreOk.append {published : List (Payload m Word)}
    (value : Payload m Word) (place : Place cap m) (k : Nat)
    (msg : Message (Place cap m) (Place.Val Word place))
    (h : StoreOk cap published place k msg) :
    StoreOk cap (published ++ [value]) place k msg := by
  cases place with
  | writeCursor => exact h
  | seq j => exact h
  | word j w =>
      refine ⟨?_, h.right⟩
      intro lap hlap
      rcases h.left lap hlap with ⟨v, hget, hword⟩
      exact ⟨v, getElem?_append_of_eq_some hget _, hword⟩

def PublishPc.wrote (w : Fin m) : PublishPc W m Word -> Nat
  | writeData _ _ written => if written w then 1 else 0
  | storeCursor _ => 1
  | _ => 0

def PublishPc.value? : PublishPc W m Word -> Option (Payload m Word)
  | storeOdd _ value => some value
  | writeData _ value _ => some value
  | _ => none

def newest (cap : Capacity W) (completed : Nat) (pc : PublishPc W m Word) :
    Place cap m -> Nat
  | Place.writeCursor => completed
  | Place.seq j =>
      cap.visits j (completed + pc.opened) +
        cap.visits j (completed + pc.stamped)
  | Place.word j w => cap.visits j (completed + pc.wrote w)

namespace RelaxedSystem

variable {s s' : RelaxedSystem cap m Word}

structure Stores (s : RelaxedSystem cap m Word) : Prop where
  each : s.memory.Each (StoreOk cap s.published)
  count : forall place,
    (s.memory place).lastIndex = newest cap s.completed s.publishPc place
  upToDate : s.memory.UpToDate s.producer
  grounded : s.memory.Grounded
  knows : s.memory.Knows s.producer
  released : forall wPos value written,
    s.publishPc = PublishPc.writeData wPos value written ->
      2 * (s.completed / cap.size) + 1 ≤
        s.producer.released (Place.seq (cap.slotOf s.completed))
  wPos : forall wPos, s.publishPc.wPos? = some wPos ->
    wPos = BitVec.ofNat W s.completed
  value : forall value, s.publishPc.value? = some value ->
    s.published[s.completed]? = some value
  length : s.published.length = s.completed + s.publishPc.begun

namespace Stores

theorem new (cap : Capacity W) (m : Nat) (Word : Type) [Zero Word] :
    Stores (RelaxedSystem.new cap m Word) where
  each := by
    apply ViewMemory.each_init
    intro place
    cases place with
    | writeCursor => exact ⟨rfl, fun p hp => absurd hp (Nat.not_lt_zero p)⟩
    | seq j => exact ⟨rfl, SeqLocked.carriesWords_bottom _⟩
    | word j w =>
        refine ⟨?_, SeqLocked.carriesOdd_bottom _⟩
        intro lap hlap
        cases hlap
  count place := by
    cases place with
    | writeCursor => rfl
    | seq j =>
        change 0 = cap.visits j 0 + cap.visits j 0
        rw [cap.visits_zero]
    | word j w => exact (cap.visits_zero j).symm
  upToDate := ViewMemory.upToDate_init _
  grounded := ViewMemory.grounded_init _
  knows := ViewMemory.knows_start _
  released _ _ _ h := by cases h
  wPos _ h := by cases h
  value _ h := by cases h
  length := rfl

theorem stampIndex_le (hs : Stores s) {p : Nat}
    (hp : p < s.completed + s.publishPc.stamped) :
    stampIndex cap p ≤ (s.memory (Place.seq (cap.slotOf p))).lastIndex := by
  have hle := s.publishPc.stamped_le_opened
  have hstamped := cap.lap_lt_visits_iff.mpr hp
  have hopened := cap.lap_lt_visits_iff.mpr
    (show p < s.completed + s.publishPc.opened by lia)
  rw [hs.count, newest, stampIndex]
  lia

theorem lt_stamped (hs : Stores s) {j : Fin cap.size} {u : Nat}
    (h : 2 * u + 2 ≤ (s.memory (Place.seq j)).lastIndex) :
    cap.positionAt j u < s.completed + s.publishPc.stamped := by
  rw [hs.count, newest] at h
  have hone := s.publishPc.opened_le_one
  by_contra hge
  have hstamped : ¬ u < cap.visits j (s.completed + s.publishPc.stamped) :=
    fun hlt => hge (cap.lt_visits_iff.mp hlt)
  have hopened : u + 1 < cap.visits j (s.completed + s.publishPc.opened) := by
    lia
  have hlt := cap.lt_visits_iff.mp hopened
  have hlap := cap.positionAt_succ j u
  have hpos := cap.size_pos
  lia

/-!
## The producer
-/

theorem newest_append (hs : Stores s) {place : Place cap m}
    {msg : Message (Place cap m) (Place.Val Word place)}
    {completed : Nat} {pc : PublishPc W m Word}
    (hself : newest cap completed pc place =
      newest cap s.completed s.publishPc place + 1)
    (hother : forall other, other ≠ place -> newest cap completed pc other =
      newest cap s.completed s.publishPc other)
    (other : Place cap m) :
    (s.memory.append place msg other).lastIndex =
      newest cap completed pc other := by
  rcases eq_or_ne other place with rfl | hne
  · rw [ViewMemory.lastIndex_append_self, hself, ← hs.count other]
    rfl
  · rw [ViewMemory.lastIndex_append_of_ne _ _ hne, hother other hne]
    exact hs.count other

theorem completed_append (memory : ViewMemory (Place cap m) (Place.Val Word))
    {place : Place cap m} (hplace : place ≠ Place.writeCursor)
    (msg : Message (Place cap m) (Place.Val Word place)) :
    (memory.append place msg Place.writeCursor).lastIndex =
      (memory Place.writeCursor).lastIndex :=
  ViewMemory.lastIndex_append_of_ne _ _ hplace.symm

theorem append (hs : Stores s) {place : Place cap m}
    {msg : Message (Place cap m) (Place.Val Word place)}
    {producer : ThreadView (Place cap m)} {pc : PublishPc W m Word}
    (hplace : place ≠ Place.writeCursor)
    (hmsg : StoreOk cap s.published place (s.memory.next place) msg)
    (hcount : newest cap s.completed pc place =
      newest cap s.completed s.publishPc place + 1)
    (hother : forall other, other ≠ place -> newest cap s.completed pc other =
      newest cap s.completed s.publishPc other)
    (hupToDate : (s.memory.append place msg).UpToDate producer)
    (hgrounded : (s.memory.append place msg).Grounded)
    (hknows : (s.memory.append place msg).Knows producer)
    (hreleased : forall wPos value written,
      pc = PublishPc.writeData wPos value written ->
        2 * (s.completed / cap.size) + 1 ≤
          producer.released (Place.seq (cap.slotOf s.completed)))
    (hwPos : forall wPos, pc.wPos? = some wPos ->
      wPos = BitVec.ofNat W s.completed)
    (hvalue : forall value, pc.value? = some value ->
      s.published[s.completed]? = some value)
    (hbegun : pc.begun = s.publishPc.begun) :
    Stores { s with
      memory := s.memory.append place msg
      producer := producer
      publishPc := pc } := by
  have hcompleted : completed { s with
      memory := s.memory.append place msg
      producer := producer
      publishPc := pc } = s.completed := completed_append s.memory hplace msg
  constructor
  · exact hs.each.append hmsg
  · intro other
    rw [hcompleted]
    exact hs.newest_append hcount hother other
  · exact hupToDate
  · exact hgrounded
  · exact hknows
  · rw [hcompleted]
    exact hreleased
  · rw [hcompleted]
    exact hwPos
  · rw [hcompleted]
    exact hvalue
  · rw [hcompleted, hbegun]
    exact hs.length

theorem publishCall (hs : Stores s) {value : Payload m Word} {n : Nat}
    (h : s.publishCall value n = some s') : Stores s' := by
  rcases publishCall_inv h with ⟨msg, hpc, hload, rfl⟩
  have hn : n = s.completed := hs.upToDate.load hload
  have hmsg := (hs.each.load hload).right.right.left
  have hlength : s.published.length = s.completed := by
    rw [hs.length, hpc]
    rfl
  constructor
  · exact hs.each.mono (StoreOk.append value)
  · intro place
    rw [hs.count place, hpc]
    cases place <;> rfl
  · exact hs.upToDate.handOver.loadRelaxed _ _ _
  · exact hs.grounded
  · exact hs.knows.handOver.load_relaxed hs.grounded hload
  · intro _ _ _ hwrite
    cases hwrite
  · intro wPos hwPos
    cases hwPos
    rw [hmsg, hn]
    rfl
  · intro v hv
    cases hv
    change (s.published ++ [value])[s.completed]? = some value
    rw [← hlength, List.getElem?_concat_length]
  · change (s.published ++ [value]).length = s.completed + 1
    rw [List.length_append, hlength]
    rfl

theorem publishStoreOdd (hs : Stores s) (h : s.publishStoreOdd = some s') :
    Stores s' := by
  rcases publishStoreOdd_inv h with ⟨wPos, value, hpc, rfl⟩
  have hwPos := hs.wPos wPos (by rw [hpc]; rfl)
  subst hwPos
  rw [← Capacity.slotOf]
  have hcount : (s.memory (Place.seq (cap.slotOf s.completed))).lastIndex =
      2 * (s.completed / cap.size) := by
    rw [hs.count, hpc]
    change cap.visits _ s.completed + cap.visits _ s.completed = _
    rw [cap.visits_slotOf]
    lia
  have hupToDate := hs.upToDate.append (Place.seq (cap.slotOf s.completed))
    ⟨BitVec.ofNat W s.completed * 2#W + 1#W, s.producer.released ⊔
      View.single (Place.seq (cap.slotOf s.completed))
        (s.memory.next (Place.seq (cap.slotOf s.completed)))⟩
  refine hs.append (by intro hne; cases hne) ⟨?_, ?_⟩ ?_ ?_ hupToDate
    (hs.grounded.storeRelaxed hs.knows _ _)
    (hs.knows.stored _ _).fenceRelease ?_ ?_ ?_ (by rw [hpc]; rfl)
  · rw [ViewMemory.next, hcount, stamp_odd, cap.positionAt_slotOf]
    exact System.Ring.oddSeq_eq s.completed
  · rw [ViewMemory.next, hcount]
    exact SeqLocked.carriesWords_odd _
  · rw [hpc]
    change cap.visits _ (s.completed + 1) + cap.visits _ s.completed =
      cap.visits _ s.completed + cap.visits _ s.completed + 1
    rw [cap.visits_slotOf_succ, cap.visits_slotOf]
    lia
  · intro other hne
    rw [hpc]
    cases other with
    | writeCursor => rfl
    | word j w => rfl
    | seq j =>
        have hj : j ≠ cap.slotOf s.completed := fun hj => hne (by rw [hj])
        change cap.visits j (s.completed + 1) + cap.visits j s.completed =
          cap.visits j s.completed + cap.visits j s.completed
        rw [cap.visits_succ_of_ne hj]
  · intro _ _ _ _
    refine Nat.le_trans (Nat.le_of_eq ?_)
      (hupToDate (Place.seq (cap.slotOf s.completed)))
    rw [ViewMemory.lastIndex_append_self, ViewMemory.next, hcount]
  · intro _ hw
    cases hw
    rfl
  · intro v hv
    exact hs.value v (by rw [hpc]; exact hv)

theorem publishWriteWord (hs : Stores s) {w : Fin m}
    (h : s.publishWriteWord w = some s') : Stores s' := by
  rcases publishWriteWord_inv h with ⟨wPos, value, written, hpc, hwritten, rfl⟩
  have hwPos := hs.wPos wPos (by rw [hpc]; rfl)
  subst hwPos
  rw [← Capacity.slotOf]
  have hreleased := hs.released _ _ _ hpc
  have hget := hs.value value (by rw [hpc]; rfl)
  have hcount : (s.memory (Place.word (cap.slotOf s.completed) w)).lastIndex =
      s.completed / cap.size := by
    rw [hs.count, hpc]
    simp only [newest, PublishPc.wrote, hwritten]
    exact cap.visits_slotOf s.completed
  refine hs.append (by intro hne; cases hne) ⟨?_, ?_⟩ ?_ ?_
    (hs.upToDate.append _ _) (hs.grounded.storeRelaxed hs.knows _ _)
    (hs.knows.stored _ _) ?_ ?_ ?_ (by rw [hpc]; rfl)
  · rw [ViewMemory.next, hcount]
    intro lap hlap
    refine ⟨value, ?_, rfl⟩
    rw [← Nat.succ.inj hlap]
    exact (congrArg (s.published[·]?) (cap.positionAt_slotOf _)).trans hget
  · rw [ViewMemory.next, hcount]
    exact SeqLocked.carriesOdd_of_released hreleased le_sup_left
  · rw [hpc]
    simp only [newest, PublishPc.wrote, hwritten, Function.update_self]
    exact (cap.visits_slotOf_succ s.completed).trans
      (congrArg Nat.succ (cap.visits_slotOf s.completed).symm)
  · intro other hne
    rw [hpc]
    cases other with
    | writeCursor => rfl
    | seq j => rfl
    | word j v =>
        rcases eq_or_ne v w with rfl | hv
        · have hj : j ≠ cap.slotOf s.completed :=
            fun hj => hne (by rw [hj])
          simp only [newest, PublishPc.wrote, hwritten, Function.update_self]
          exact cap.visits_succ_of_ne hj
        · simp only [newest, PublishPc.wrote, Function.update_of_ne hv]
  · intro _ _ _ _
    exact hreleased
  · intro _ hw
    cases hw
    rfl
  · intro v hv
    exact hs.value v (by rw [hpc]; exact hv)

theorem publishStoreEven (hs : Stores s) (h : s.publishStoreEven = some s') :
    Stores s' := by
  rcases publishStoreEven_inv h with ⟨wPos, value, written, hpc, hall, rfl⟩
  have hwPos := hs.wPos wPos (by rw [hpc]; rfl)
  subst hwPos
  rw [← Capacity.slotOf]
  have hcount : (s.memory (Place.seq (cap.slotOf s.completed))).lastIndex =
      2 * (s.completed / cap.size) + 1 := by
    rw [hs.count, hpc]
    change cap.visits _ (s.completed + 1) + cap.visits _ s.completed = _
    rw [cap.visits_slotOf, cap.visits_slotOf_succ]
    lia
  have hwords : forall w, (s.memory ((Place.slot (m := m)
      (cap.slotOf s.completed)).word w)).lastIndex =
        s.completed / cap.size + 1 := by
    intro w
    change (s.memory (Place.word (cap.slotOf s.completed) w)).lastIndex = _
    rw [hs.count, hpc]
    simp only [newest, PublishPc.wrote, hall w]
    exact cap.visits_slotOf_succ s.completed
  refine hs.append (by intro hne; cases hne) ⟨?_, ?_⟩ ?_ ?_
    (hs.upToDate.append _ _) (hs.grounded.storeRelease hs.knows _ _)
    (hs.knows.stored _ _) ?_ ?_ ?_ (by rw [hpc]; rfl)
  · rw [ViewMemory.next, hcount, stamp_even, cap.positionAt_slotOf]
    exact System.Ring.evenSeq_eq s.completed
  · rw [ViewMemory.next, hcount]
    exact SeqLocked.carriesWords_of_upToDate hs.upToDate hwords le_sup_left
  · rw [hpc]
    change cap.visits _ (s.completed + 1) + cap.visits _ (s.completed + 1) =
      cap.visits _ (s.completed + 1) + cap.visits _ s.completed + 1
    rw [cap.visits_slotOf_succ, cap.visits_slotOf]
    lia
  · intro other hne
    rw [hpc]
    cases other with
    | writeCursor => rfl
    | word j w => simp only [newest, PublishPc.wrote, hall w, if_true]
    | seq j =>
        have hj : j ≠ cap.slotOf s.completed := fun hj => hne (by rw [hj])
        change cap.visits j (s.completed + 1) + cap.visits j (s.completed + 1) =
          cap.visits j (s.completed + 1) + cap.visits j s.completed
        rw [cap.visits_succ_of_ne hj]
  · intro _ _ _ hwrite
    cases hwrite
  · intro _ hw
    cases hw
    rfl
  · intro _ hv
    cases hv

theorem publishStoreCursor (hs : Stores s)
    (h : s.publishStoreCursor = some s') : Stores s' := by
  rcases publishStoreCursor_inv h with ⟨wPos, hpc, rfl⟩
  have hwPos := hs.wPos wPos (by rw [hpc]; rfl)
  subst hwPos
  have hlast : (s.memory Place.writeCursor).lastIndex = s.completed := rfl
  have hcompleted : forall msg producer pc, completed { s with
      memory := s.memory.append Place.writeCursor msg
      producer := producer
      publishPc := pc } = s.completed + 1 :=
    fun msg _ _ => ViewMemory.lastIndex_append_self s.memory
      Place.writeCursor msg
  have hstamped : Stamped cap (s.completed + 1) s.producer.current := by
    intro p hp
    have hle := hs.stampIndex_le (p := p) (by rw [hpc]; exact hp)
    exact Nat.le_trans hle (hs.upToDate _)
  constructor
  · apply hs.each.append
    rw [ViewMemory.next, hlast]
    exact ⟨BitVec.ofNat_add_ofNat _ 1, hstamped.mono le_sup_left⟩
  · intro other
    simp only [ViewMemory.storeRelease, hcompleted]
    apply hs.newest_append
    · rfl
    · intro other hne
      rw [hpc]
      cases other with
      | writeCursor => exact absurd rfl hne
      | seq j => rfl
      | word j w => rfl
  · exact hs.upToDate.append _ _
  · exact hs.grounded.storeRelease hs.knows _ _
  · exact hs.knows.stored _ _
  · intro _ _ _ hwrite
    cases hwrite
  · intro _ hidle
    cases hidle
  · intro _ hidle
    cases hidle
  · simp only [ViewMemory.storeRelease, hcompleted]
    rw [hs.length, hpc]
    rfl

theorem setReader (hs : Stores s) (c : Nat) (r : RelaxedReader cap m Word) :
    Stores (s.setReader c r) :=
  ⟨hs.each, hs.count, hs.upToDate, hs.grounded, hs.knows, hs.released,
    hs.wPos, hs.value, hs.length⟩

theorem step (hs : Stores s) {a : RelaxedAction m Word}
    (h : s.step a = some s') : Stores s' := by
  cases a with
  | publishCall value n => exact hs.publishCall h
  | publishStoreOdd => exact hs.publishStoreOdd h
  | publishWriteWord w => exact hs.publishWriteWord h
  | publishStoreEven => exact hs.publishStoreEven h
  | publishStoreCursor => exact hs.publishStoreCursor h
  | read c a =>
      rcases read_inv h with ⟨_, r', _, _, rfl⟩
      exact hs.setReader c r'
  | clone parent child =>
      rcases clone_inv h with ⟨_, _, _, _, _, rfl⟩
      exact hs.setReader child _
  | hear c source =>
      rcases hear_inv h with ⟨_, _, _, _, _, rfl⟩
      exact hs.setReader c _

theorem reachable [Zero Word]
    (hs : (relaxedMachine cap m Word).Reachable s) : Stores s :=
  hs.invariant (Stores.new cap m Word) (fun _ _ _ hs h => hs.step h)

end Stores
end RelaxedSystem
end Spmc
end LowLatency
