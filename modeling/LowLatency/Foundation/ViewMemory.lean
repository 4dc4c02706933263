import Mathlib.Order.Lattice
import LowLatency.Foundation.StoreHistory

/-!
# View-based weak memory

Each location has a history of stores.  A thread carries for each location the
newest store it is bound to see, and every store carries such a view along.  A
load may return any store that is not older than the view of its thread.
-/

namespace LowLatency
namespace Foundation

/-- For each location the index of a store. -/
abbrev View (Loc : Type _) := Loc -> Nat

namespace View

variable {Loc : Type _} [DecidableEq Loc]

def bottom (Loc : Type _) : View Loc :=
  fun _ => 0

def single (loc : Loc) (i : Nat) : View Loc :=
  fun other => if other = loc then i else 0

@[simp] theorem single_self (loc : Loc) (i : Nat) : single loc i loc = i :=
  if_pos rfl

theorem single_of_ne {loc other : Loc} (h : other ≠ loc) (i : Nat) :
    single loc i other = 0 :=
  if_neg h

theorem single_le_iff {v : View Loc} {loc : Loc} {i : Nat} :
    single loc i ≤ v <-> i ≤ v loc := by
  constructor
  · intro h
    have hloc := h loc
    rw [single_self] at hloc
    exact hloc
  · intro h other
    rcases eq_or_ne other loc with rfl | hne
    · rw [single_self]
      exact h
    · rw [single_of_ne hne]
      exact Nat.zero_le _

end View

structure Message (Loc : Type _) (Val : Type _) where
  value : Val
  view : View Loc

abbrev ViewMemory (Loc : Type _) (Val : Loc -> Type _) :=
  (loc : Loc) -> StoreHistory (Message Loc (Val loc))

/--
What a thread knows: the stores it is bound to see, those it will be bound to
see after an acquire fence, and those that its relaxed stores carry along.
-/
structure ThreadView (Loc : Type _) where
  current : View Loc
  acquired : View Loc
  released : View Loc

/-!
## Fences, loads and stores
-/

namespace ThreadView

variable {Loc : Type _} {Val : Type _}

def start (Loc : Type _) : ThreadView Loc where
  current := View.bottom Loc
  acquired := View.bottom Loc
  released := View.bottom Loc

def fenceAcquire (t : ThreadView Loc) : ThreadView Loc :=
  { t with current := t.current ⊔ t.acquired }

def fenceRelease (t : ThreadView Loc) : ThreadView Loc :=
  { t with released := t.current }

theorem current_le_fenceAcquire (t : ThreadView Loc) :
    t.current ≤ t.fenceAcquire.current :=
  le_sup_left

theorem acquired_le_fenceAcquire (t : ThreadView Loc) :
    t.acquired ≤ t.fenceAcquire.current :=
  le_sup_right

variable [DecidableEq Loc]

def loadRelaxed (t : ThreadView Loc) (loc : Loc) (i : Nat)
    (msg : Message Loc Val) : ThreadView Loc :=
  { t with
    current := t.current ⊔ View.single loc i
    acquired := t.acquired ⊔ (View.single loc i ⊔ msg.view) }

def loadAcquire (t : ThreadView Loc) (loc : Loc) (i : Nat)
    (msg : Message Loc Val) : ThreadView Loc :=
  { t with
    current := t.current ⊔ (View.single loc i ⊔ msg.view)
    acquired := t.acquired ⊔ (View.single loc i ⊔ msg.view) }

def stored (t : ThreadView Loc) (loc : Loc) (i : Nat) : ThreadView Loc :=
  { t with
    current := t.current ⊔ View.single loc i
    acquired := t.acquired ⊔ View.single loc i }

/-!
## What a thread learns
-/

variable (t : ThreadView Loc) (loc : Loc) (i : Nat) (msg : Message Loc Val)

theorem current_le_loadRelaxed :
    t.current ≤ (t.loadRelaxed loc i msg).current :=
  le_sup_left

theorem acquired_le_loadRelaxed :
    t.acquired ≤ (t.loadRelaxed loc i msg).acquired :=
  le_sup_left

theorem view_le_loadRelaxed : msg.view ≤ (t.loadRelaxed loc i msg).acquired :=
  le_sup_of_le_right le_sup_right

theorem view_le_loadAcquire : msg.view ≤ (t.loadAcquire loc i msg).current :=
  le_sup_of_le_right le_sup_right

theorem index_le_loadAcquire : i ≤ (t.loadAcquire loc i msg).current loc :=
  View.single_le_iff.mp (le_sup_of_le_right le_sup_left)

theorem current_le_stored : t.current ≤ (t.stored loc i).current :=
  le_sup_left

theorem index_le_stored : i ≤ (t.stored loc i).current loc :=
  View.single_le_iff.mp le_sup_right

end ThreadView

/-!
## Memory
-/

namespace ViewMemory

variable {Loc : Type _} {Val : Loc -> Type _}

def init (v : (loc : Loc) -> Val loc) : ViewMemory Loc Val :=
  fun loc => ⟨⟨v loc, View.bottom Loc⟩, []⟩

def load? (mem : ViewMemory Loc Val) (view : View Loc) (loc : Loc) (i : Nat) :
    Option (Message Loc (Val loc)) :=
  (mem loc).load? (view loc) i

def next (mem : ViewMemory Loc Val) (loc : Loc) : Nat :=
  (mem loc).lastIndex + 1

def Each (mem : ViewMemory Loc Val)
    (P : (loc : Loc) -> Nat -> Message Loc (Val loc) -> Prop) : Prop :=
  forall loc, (mem loc).Each (P loc)

theorem each_init {P : (loc : Loc) -> Nat -> Message Loc (Val loc) -> Prop}
    {v : (loc : Loc) -> Val loc}
    (h : forall loc, P loc 0 ⟨v loc, View.bottom Loc⟩) :
    (init v).Each P :=
  fun loc => StoreHistory.each_initial (h loc)

theorem Each.mono {mem : ViewMemory Loc Val}
    {P Q : (loc : Loc) -> Nat -> Message Loc (Val loc) -> Prop}
    (h : mem.Each P) (himp : forall loc i msg, P loc i msg -> Q loc i msg) :
    mem.Each Q :=
  fun loc => (h loc).mono (himp loc)

theorem Each.load {mem : ViewMemory Loc Val}
    {P : (loc : Loc) -> Nat -> Message Loc (Val loc) -> Prop}
    (h : mem.Each P) {view : View Loc} {loc : Loc} {i : Nat}
    {msg : Message Loc (Val loc)} (hload : mem.load? view loc i = some msg) :
    view loc ≤ i ∧ i ≤ (mem loc).lastIndex ∧ P loc i msg :=
  StoreHistory.Each.load (h loc) hload

/-- The thread has seen all stores, as one does that makes them all. -/
def UpToDate (mem : ViewMemory Loc Val) (t : ThreadView Loc) : Prop :=
  forall loc, (mem loc).lastIndex ≤ t.current loc

theorem upToDate_init (v : (loc : Loc) -> Val loc) :
    (init v).UpToDate (ThreadView.start Loc) :=
  fun _ => Nat.le_refl 0

theorem UpToDate.load {mem : ViewMemory Loc Val} {t : ThreadView Loc}
    (h : mem.UpToDate t) {loc : Loc} {i : Nat} {msg : Message Loc (Val loc)}
    (hload : mem.load? t.current loc i = some msg) :
    i = (mem loc).lastIndex := by
  rcases StoreHistory.load?_eq_some.mp hload with ⟨hseen, hread⟩
  exact Nat.le_antisymm (StoreHistory.read?_le hread)
    (Nat.le_trans (h loc) hseen)

/-!
## Stores
-/

variable [DecidableEq Loc]

def append (mem : ViewMemory Loc Val) (loc : Loc)
    (msg : Message Loc (Val loc)) : ViewMemory Loc Val :=
  Function.update mem loc ((mem loc).store msg)

/-- A relaxed store carries what the thread knew at its last release fence. -/
def storeRelaxed (mem : ViewMemory Loc Val) (t : ThreadView Loc) (loc : Loc)
    (v : Val loc) : ViewMemory Loc Val × ThreadView Loc :=
  let i := mem.next loc
  (mem.append loc ⟨v, t.released ⊔ View.single loc i⟩, t.stored loc i)

/-- A release store carries all that the thread knows. -/
def storeRelease (mem : ViewMemory Loc Val) (t : ThreadView Loc) (loc : Loc)
    (v : Val loc) : ViewMemory Loc Val × ThreadView Loc :=
  let i := mem.next loc
  (mem.append loc ⟨v, t.current ⊔ View.single loc i⟩, t.stored loc i)

@[simp] theorem append_self (mem : ViewMemory Loc Val) (loc : Loc)
    (msg : Message Loc (Val loc)) :
    mem.append loc msg loc = (mem loc).store msg :=
  Function.update_self loc _ mem

theorem append_of_ne (mem : ViewMemory Loc Val) {loc other : Loc}
    (msg : Message Loc (Val loc)) (h : other ≠ loc) :
    mem.append loc msg other = mem other :=
  Function.update_of_ne h _ mem

@[simp] theorem current_append_self (mem : ViewMemory Loc Val) (loc : Loc)
    (msg : Message Loc (Val loc)) : (mem.append loc msg loc).current = msg := by
  rw [append_self, StoreHistory.current_store]

theorem current_append_of_ne (mem : ViewMemory Loc Val) {loc other : Loc}
    (msg : Message Loc (Val loc)) (h : other ≠ loc) :
    (mem.append loc msg other).current = (mem other).current := by
  rw [append_of_ne mem msg h]

theorem lastIndex_append_self (mem : ViewMemory Loc Val) (loc : Loc)
    (msg : Message Loc (Val loc)) :
    (mem.append loc msg loc).lastIndex = mem.next loc := by
  rw [append_self, StoreHistory.lastIndex_store]
  rfl

theorem lastIndex_append_of_ne (mem : ViewMemory Loc Val) {loc other : Loc}
    (msg : Message Loc (Val loc)) (h : other ≠ loc) :
    (mem.append loc msg other).lastIndex = (mem other).lastIndex := by
  rw [append_of_ne mem msg h]

theorem lastIndex_le_append (mem : ViewMemory Loc Val) (loc : Loc)
    (msg : Message Loc (Val loc)) (other : Loc) :
    (mem other).lastIndex ≤ (mem.append loc msg other).lastIndex := by
  rcases eq_or_ne other loc with rfl | hne
  · rw [lastIndex_append_self]
    exact Nat.le_succ _
  · rw [lastIndex_append_of_ne mem msg hne]

theorem Each.append {mem : ViewMemory Loc Val}
    {P : (loc : Loc) -> Nat -> Message Loc (Val loc) -> Prop}
    (h : mem.Each P) {loc : Loc} {msg : Message Loc (Val loc)}
    (hmsg : P loc (mem.next loc) msg) : (mem.append loc msg).Each P := by
  intro other
  rcases eq_or_ne other loc with rfl | hne
  · rw [append_self]
    exact (h other).store hmsg
  · rw [append_of_ne mem msg hne]
    exact h other

theorem UpToDate.append {mem : ViewMemory Loc Val} {t : ThreadView Loc}
    (h : mem.UpToDate t) (loc : Loc) (msg : Message Loc (Val loc)) :
    (mem.append loc msg).UpToDate (t.stored loc (mem.next loc)) := by
  intro other
  rcases eq_or_ne other loc with rfl | hne
  · rw [lastIndex_append_self]
    exact t.index_le_stored other _
  · rw [lastIndex_append_of_ne mem msg hne]
    exact Nat.le_trans (h other) (t.current_le_stored loc _ other)

theorem UpToDate.loadRelaxed {mem : ViewMemory Loc Val} {t : ThreadView Loc}
    (h : mem.UpToDate t) (loc : Loc) (i : Nat) (msg : Message Loc (Val loc)) :
    mem.UpToDate (t.loadRelaxed loc i msg) :=
  fun other => Nat.le_trans (h other) (t.current_le_loadRelaxed loc i msg other)

end ViewMemory
end Foundation
end LowLatency
