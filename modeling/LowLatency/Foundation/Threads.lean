import LowLatency.Foundation.NewestLoads

/-!
# Threads on a view memory

A family of threads shares one view memory.  Atomic locations are loaded and
stored with the orderings of the code.  A plain location may only be accessed by
a thread that is bound to see all accesses made to it; everything else is a data
race, which is recorded.
-/

namespace LowLatency
namespace Foundation

/-!
## Threads that meet outside of the memory

A party may be moved to another thread, and threads may synchronise by other
means.  Then what the one is bound to see becomes visible to the other.
-/

namespace ThreadView

variable {Loc : Type _} (t : ThreadView Loc)

/-- In a new thread only what was bound to be seen is left. -/
def handOver : ThreadView Loc where
  current := t.current
  acquired := View.bottom Loc
  released := View.bottom Loc

def hear (view : View Loc) : ThreadView Loc :=
  { t with current := t.current ⊔ view }

theorem current_le_hear (view : View Loc) : t.current ≤ (t.hear view).current :=
  le_sup_left

theorem current_le_loadAcquire [DecidableEq Loc] {V : Type _} (loc : Loc)
    (i : Nat) (msg : Message Loc V) :
    t.current ≤ (t.loadAcquire loc i msg).current :=
  le_sup_left

end ThreadView

namespace ViewMemory

variable {Loc : Type _} {Val : Loc -> Type _} {mem : ViewMemory Loc Val}
variable {t : ThreadView Loc}

theorem UpToDate.handOver (h : mem.UpToDate t) : mem.UpToDate t.handOver :=
  h

namespace Knows

theorem handOver (h : mem.Knows t) : mem.Knows t.handOver :=
  ⟨h.current, mem.covers_bottom, mem.covers_bottom⟩

theorem hear (h : mem.Knows t) {view : View Loc} (hview : mem.Covers view) :
    mem.Knows (t.hear view) :=
  ⟨h.current.sup hview, h.acquired, h.released⟩

variable [DecidableEq Loc] {loc : Loc} {i : Nat} {msg : Message Loc (Val loc)}

theorem load_relaxed (h : mem.Knows t) (hg : mem.Grounded) {view : View Loc}
    (hload : mem.load? view loc i = some msg) :
    mem.Knows (t.loadRelaxed loc i msg) := by
  rcases hg.load hload with ⟨_, hlast, hmsg⟩
  have hsingle := covers_single hlast
  exact ⟨h.current.sup hsingle, h.acquired.sup (hsingle.sup hmsg),
    h.released⟩

theorem load_acquire (h : mem.Knows t) (hg : mem.Grounded) {view : View Loc}
    (hload : mem.load? view loc i = some msg) :
    mem.Knows (t.loadAcquire loc i msg) := by
  rcases hg.load hload with ⟨_, hlast, hmsg⟩
  have hsingle := covers_single hlast
  exact ⟨h.current.sup (hsingle.sup hmsg),
    h.acquired.sup (hsingle.sup hmsg), h.released⟩

end Knows
end ViewMemory

/-!
## Threads
-/

/-- `racy` is history: an access to a plain location was a data race. -/
structure Threads (Id : Type _) (Loc : Type _) (Val : Loc -> Type _) where
  memory : ViewMemory Loc Val
  view : Id -> ThreadView Loc
  racy : Bool

namespace Threads

variable {Id Loc : Type _} {Val : Loc -> Type _}

def start (Id : Type _) (v : (loc : Loc) -> Val loc) : Threads Id Loc Val where
  memory := ViewMemory.init v
  view := fun _ => ThreadView.start Loc
  racy := false

/-- The newest store, or what the last access left in a plain location. -/
def content (m : Threads Id Loc Val) (loc : Loc) : Val loc :=
  (m.memory loc).current.value

/-- The thread is bound to see all stores to the location. -/
def Covers (m : Threads Id Loc Val) (i : Id) (loc : Loc) : Prop :=
  (m.memory loc).lastIndex ≤ (m.view i).current loc

instance (m : Threads Id Loc Val) (i : Id) (loc : Loc) :
    Decidable (m.Covers i loc) :=
  inferInstanceAs (Decidable (_ ≤ _))

/-!
## What an operation leaves in place
-/

structure Grows (m m' : Threads Id Loc Val) : Prop where
  current : forall j, (m.view j).current ≤ (m'.view j).current
  kept : forall loc k msg, (m.memory loc).read? k = some msg ->
    (m'.memory loc).read? k = some msg

structure Learns (m m' : Threads Id Loc Val) (i : Id) : Prop where
  memory : m'.memory = m.memory
  others : forall j, j ≠ i -> m'.view j = m.view j
  current : (m.view i).current ≤ (m'.view i).current
  racy : m'.racy = m.racy

section Frames

variable {m m' m'' : Threads Id Loc Val} {i j : Id} {loc : Loc}

theorem Grows.refl (m : Threads Id Loc Val) : Grows m m :=
  ⟨fun _ => le_refl _, fun _ _ _ hread => hread⟩

theorem Grows.trans (h : Grows m m') (h' : Grows m' m'') : Grows m m'' :=
  ⟨fun j => le_trans (h.current j) (h'.current j),
    fun loc k msg hread => h'.kept loc k msg (h.kept loc k msg hread)⟩

theorem Grows.lastIndex (h : Grows m m') (loc : Loc) :
    (m.memory loc).lastIndex ≤ (m'.memory loc).lastIndex :=
  StoreHistory.read?_le (h.kept loc _ _ (m.memory loc).read?_lastIndex)

theorem Learns.grows (h : Learns m m' i) : Grows m m' := by
  constructor
  · intro j
    rcases eq_or_ne j i with rfl | hj
    · exact h.current
    · rw [h.others j hj]
  · intro loc k msg hread
    rw [h.memory]
    exact hread

theorem Learns.covers (h : Learns m m' i) (hc : m.Covers j loc) :
    m'.Covers j loc := by
  rw [Covers, h.memory]
  exact Nat.le_trans hc (h.grows.current j loc)

structure Stores [DecidableEq Loc] (m m' : Threads Id Loc Val) (i : Id)
    (loc : Loc) (msg : Message Loc (Val loc)) : Prop where
  memory : m'.memory = m.memory.append loc msg
  others : forall j, j ≠ i -> m'.view j = m.view j
  current : (m.view i).current ≤ (m'.view i).current
  seen : m.memory.next loc ≤ (m'.view i).current loc

structure StoresOnly (P : Loc -> Prop) (m m' : Threads Id Loc Val) : Prop where
  grows : Grows m m'
  elsewhere : forall other, ¬ P other -> m'.memory other = m.memory other

variable {P : Loc -> Prop}

theorem StoresOnly.trans (h : StoresOnly P m m') (h' : StoresOnly P m' m'') :
    StoresOnly P m m'' :=
  ⟨h.grows.trans h'.grows, fun other hother =>
    (h'.elsewhere other hother).trans (h.elsewhere other hother)⟩

theorem Learns.storesOnly (h : Learns m m' i) : StoresOnly P m m' :=
  ⟨h.grows, fun other _ => congrFun h.memory other⟩

variable [DecidableEq Loc] {msg : Message Loc (Val loc)}

theorem Stores.grows (h : Stores m m' i loc msg) : Grows m m' := by
  constructor
  · intro j
    rcases eq_or_ne j i with rfl | hj
    · exact h.current
    · rw [h.others j hj]
  · intro other k old hread
    rw [h.memory]
    rcases eq_or_ne other loc with rfl | hne
    · rw [ViewMemory.append_self,
        StoreHistory.read?_store_of_le (StoreHistory.read?_le hread)]
      exact hread
    · rw [ViewMemory.append_of_ne _ _ hne]
      exact hread

theorem Stores.memory_of_ne (h : Stores m m' i loc msg) {other : Loc}
    (hne : other ≠ loc) : m'.memory other = m.memory other := by
  rw [h.memory]
  exact ViewMemory.append_of_ne _ _ hne

theorem Stores.storesOnly (h : Stores m m' i loc msg) (hloc : P loc) :
    StoresOnly P m m' := by
  refine ⟨h.grows, fun other hother => h.memory_of_ne ?_⟩
  rintro rfl
  exact hother hloc

theorem Stores.covers (h : Stores m m' i loc msg) {other : Loc}
    (hc : m.Covers j other) (hne : j = i ∨ other ≠ loc) :
    m'.Covers j other := by
  rw [Covers, h.memory]
  rcases eq_or_ne other loc with rfl | hother
  · rw [ViewMemory.lastIndex_append_self]
    rcases hne with rfl | habsurd
    · exact h.seen
    · exact absurd rfl habsurd
  · rw [ViewMemory.lastIndex_append_of_ne _ _ hother]
    exact Nat.le_trans hc (h.grows.current j other)

end Frames

/-!
## Operations
-/

section Views

variable [DecidableEq Id]

def setView (m : Threads Id Loc Val) (i : Id) (t : ThreadView Loc) :
    Threads Id Loc Val :=
  { m with view := Function.update m.view i t }

def handOver (m : Threads Id Loc Val) (i : Id) : Threads Id Loc Val :=
  m.setView i (m.view i).handOver

def fenceAcquire (m : Threads Id Loc Val) (i : Id) : Threads Id Loc Val :=
  m.setView i (m.view i).fenceAcquire

variable {m : Threads Id Loc Val} {i j : Id}

theorem view_setView_self (t : ThreadView Loc) : (m.setView i t).view i = t :=
  Function.update_self _ _ _

theorem view_setView_of_ne (h : j ≠ i) (t : ThreadView Loc) :
    (m.setView i t).view j = m.view j :=
  Function.update_of_ne h _ _

theorem Learns.setView {t : ThreadView Loc}
    (h : (m.view i).current ≤ t.current) : Learns m (m.setView i t) i := by
  refine ⟨rfl, fun j hj => view_setView_of_ne hj t, ?_, rfl⟩
  rw [view_setView_self]
  exact h

theorem learns_handOver (m : Threads Id Loc Val) (i : Id) :
    Learns m (m.handOver i) i :=
  Learns.setView (le_refl _)

theorem learns_fenceAcquire (m : Threads Id Loc Val) (i : Id) :
    Learns m (m.fenceAcquire i) i :=
  Learns.setView (m.view i).current_le_fenceAcquire

end Views

variable [DecidableEq Id] [DecidableEq Loc]

def loadAcquire (m : Threads Id Loc Val) (i : Id) (loc : Loc) (k : Nat) :
    Option (Val loc × Threads Id Loc Val) :=
  (m.memory.load? (m.view i).current loc k).map (fun msg =>
    (msg.value, m.setView i ((m.view i).loadAcquire loc k msg)))

def loadRelaxed (m : Threads Id Loc Val) (i : Id) (loc : Loc) (k : Nat) :
    Option (Val loc × Threads Id Loc Val) :=
  (m.memory.load? (m.view i).current loc k).map (fun msg =>
    (msg.value, m.setView i ((m.view i).loadRelaxed loc k msg)))

def append (m : Threads Id Loc Val) (i : Id) (loc : Loc)
    (msg : Message Loc (Val loc)) : Threads Id Loc Val :=
  { m.setView i ((m.view i).stored loc (m.memory.next loc)) with
    memory := m.memory.append loc msg }

def storeRelease (m : Threads Id Loc Val) (i : Id) (loc : Loc) (v : Val loc) :
    Threads Id Loc Val :=
  m.append i loc ⟨v, (m.view i).current ⊔ View.single loc (m.memory.next loc)⟩

/-- An access to a plain location that leaves `v` there. -/
def access (m : Threads Id Loc Val) (i : Id) (loc : Loc) (v : Val loc) :
    Threads Id Loc Val :=
  { m.append i loc ⟨v, View.single loc (m.memory.next loc)⟩ with
    racy := m.racy || !decide (m.Covers i loc) }

/--
A read-modify-write with release ordering.  It reads the newest store and
continues its release sequence.
-/
def updateRelease (m : Threads Id Loc Val) (i : Id) (loc : Loc)
    (f : Val loc -> Val loc) : Threads Id Loc Val :=
  let msg := (m.memory loc).current
  let m := m.setView i
    ((m.view i).loadRelaxed loc (m.memory loc).lastIndex msg)
  m.append i loc ⟨f msg.value,
    (m.view i).current ⊔ (msg.view ⊔ View.single loc (m.memory.next loc))⟩

/-!
## What the operations do
-/

variable {m m' : Threads Id Loc Val} {i : Id} {loc : Loc} {k : Nat}

theorem loadAcquire_inv {v : Val loc}
    (h : m.loadAcquire i loc k = some (v, m')) :
    exists msg, m.memory.load? (m.view i).current loc k = some msg ∧
      v = msg.value ∧ Learns m m' i ∧
      m'.view i = (m.view i).loadAcquire loc k msg := by
  rcases Option.map_eq_some_iff.mp h with ⟨msg, hload, hm'⟩
  cases hm'
  exact ⟨msg, hload, rfl,
    Learns.setView ((m.view i).current_le_loadAcquire loc k msg),
    view_setView_self _⟩

theorem loadRelaxed_inv {v : Val loc}
    (h : m.loadRelaxed i loc k = some (v, m')) :
    exists msg, m.memory.load? (m.view i).current loc k = some msg ∧
      v = msg.value ∧ Learns m m' i ∧
      m'.view i = (m.view i).loadRelaxed loc k msg := by
  rcases Option.map_eq_some_iff.mp h with ⟨msg, hload, hm'⟩
  cases hm'
  exact ⟨msg, hload, rfl,
    Learns.setView ((m.view i).current_le_loadRelaxed loc k msg),
    view_setView_self _⟩

theorem loadRelaxed_newest {v : Val loc}
    (h : m.loadRelaxed i loc k = some (v, m')) (hc : m.Covers i loc) :
    v = m.content loc := by
  rcases loadRelaxed_inv h with ⟨msg, hload, rfl, _, _⟩
  rcases StoreHistory.load?_eq_some.mp hload with ⟨hseen, hread⟩
  have hlast : k = (m.memory loc).lastIndex :=
    Nat.le_antisymm (StoreHistory.read?_le hread) (Nat.le_trans hc hseen)
  rw [hlast, StoreHistory.read?_lastIndex] at hread
  rw [content, Option.some.inj hread]

theorem stores_append (m : Threads Id Loc Val) (i : Id) (loc : Loc)
    (msg : Message Loc (Val loc)) : Stores m (m.append i loc msg) i loc msg := by
  have hview : (m.append i loc msg).view i =
      (m.view i).stored loc (m.memory.next loc) := view_setView_self _
  refine ⟨rfl, fun j hj => view_setView_of_ne hj _, ?_, ?_⟩
  · rw [hview]
    exact (m.view i).current_le_stored _ _
  · rw [hview]
    exact (m.view i).index_le_stored _ _

theorem stores_storeRelease (m : Threads Id Loc Val) (i : Id) (loc : Loc)
    (v : Val loc) : Stores m (m.storeRelease i loc v) i loc
      ⟨v, (m.view i).current ⊔ View.single loc (m.memory.next loc)⟩ :=
  stores_append m i loc _

theorem stores_access (m : Threads Id Loc Val) (i : Id) (loc : Loc)
    (v : Val loc) : Stores m (m.access i loc v) i loc
      ⟨v, View.single loc (m.memory.next loc)⟩ := by
  have h := stores_append m i loc ⟨v, View.single loc (m.memory.next loc)⟩
  exact ⟨h.memory, h.others, h.current, h.seen⟩

theorem racy_access {v : Val loc} (hc : m.Covers i loc) :
    (m.access i loc v).racy = m.racy := by
  simp [access, hc]

theorem stores_updateRelease (m : Threads Id Loc Val) (i : Id) (loc : Loc)
    (f : Val loc -> Val loc) :
    exists msg : Message Loc (Val loc),
      Stores m (m.updateRelease i loc f) i loc msg ∧
      msg.value = f (m.content loc) ∧ (m.view i).current ≤ msg.view ∧
      (m.memory loc).current.view ≤ msg.view ∧
      (m.memory loc).current.view ≤ ((m.updateRelease i loc f).view i).acquired ∧
      (m.updateRelease i loc f).racy = m.racy := by
  have hload : Learns m (m.setView i ((m.view i).loadRelaxed loc
      (m.memory loc).lastIndex (m.memory loc).current)) i :=
    Learns.setView ((m.view i).current_le_loadRelaxed _ _ _)
  have hself := view_setView_self (m := m) (i := i)
    ((m.view i).loadRelaxed loc (m.memory loc).lastIndex
      (m.memory loc).current)
  have hstore := stores_append (m.setView i ((m.view i).loadRelaxed loc
    (m.memory loc).lastIndex (m.memory loc).current)) i loc
  refine ⟨_, ⟨(hstore _).memory, ?_, le_trans hload.current (hstore _).current,
    (hstore _).seen⟩, rfl, ?_, ?_, ?_, rfl⟩
  · intro j hj
    rw [← hload.others j hj]
    exact (hstore _).others j hj
  · exact le_trans hload.current le_sup_left
  · exact le_sup_of_le_right le_sup_left
  · have hview : (m.updateRelease i loc f).view i =
        (((m.view i).loadRelaxed loc (m.memory loc).lastIndex
          (m.memory loc).current).stored loc (m.memory.next loc)) := by
      simp only [updateRelease, append, view_setView_self]
      rfl
    rw [hview]
    exact le_sup_of_le_left
      ((m.view i).view_le_loadRelaxed loc _ (m.memory loc).current)

end Threads
end Foundation
end LowLatency
