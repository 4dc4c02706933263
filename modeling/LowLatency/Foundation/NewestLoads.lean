import LowLatency.Foundation.ViewMemory

/-!
# Loads of the newest store

Threads and stores only ever know of stores that have been made.  A load may
therefore always return the newest store, as every load does when the steps of
the threads interleave on one memory.
-/

namespace LowLatency
namespace Foundation
namespace ViewMemory

variable {Loc : Type _} {Val : Loc -> Type _}
variable {mem : ViewMemory Loc Val} {view view' : View Loc}
variable {t : ThreadView Loc} {loc : Loc} {i : Nat} {msg : Message Loc (Val loc)}

/-!
## Views of existing stores
-/

def Covers (mem : ViewMemory Loc Val) (view : View Loc) : Prop :=
  forall loc, view loc ≤ (mem loc).lastIndex

structure Knows (mem : ViewMemory Loc Val) (t : ThreadView Loc) : Prop where
  current : mem.Covers t.current
  acquired : mem.Covers t.acquired
  released : mem.Covers t.released

def Grounded (mem : ViewMemory Loc Val) : Prop :=
  mem.Each (fun _ _ msg => mem.Covers msg.view)

theorem covers_bottom (mem : ViewMemory Loc Val) :
    mem.Covers (View.bottom Loc) :=
  fun _ => Nat.zero_le _

theorem Covers.sup (h : mem.Covers view) (h' : mem.Covers view') :
    mem.Covers (view ⊔ view') :=
  fun loc => Nat.max_le.mpr ⟨h loc, h' loc⟩

theorem Covers.load_newest (h : mem.Covers view) (loc : Loc) :
    mem.load? view loc (mem loc).lastIndex = some (mem loc).current :=
  StoreHistory.load?_eq_some.mpr ⟨h loc, (mem loc).read?_lastIndex⟩

theorem grounded_init (v : (loc : Loc) -> Val loc) : (init v).Grounded :=
  each_init (fun _ => covers_bottom _)

theorem Grounded.newest (h : mem.Grounded) (loc : Loc) :
    mem.Covers (mem loc).current.view :=
  h loc _ _ (mem loc).read?_lastIndex

theorem knows_start (mem : ViewMemory Loc Val) :
    mem.Knows (ThreadView.start Loc) :=
  ⟨covers_bottom mem, covers_bottom mem, covers_bottom mem⟩

theorem Knows.fenceAcquire (h : mem.Knows t) : mem.Knows t.fenceAcquire :=
  ⟨h.current.sup h.acquired, h.acquired, h.released⟩

theorem Knows.fenceRelease (h : mem.Knows t) : mem.Knows t.fenceRelease :=
  ⟨h.current, h.acquired, h.current⟩

/-!
## Loads and stores
-/

variable [DecidableEq Loc]

theorem covers_single (hi : i ≤ (mem loc).lastIndex) :
    mem.Covers (View.single loc i) := by
  have hlast : View.single loc i ≤ fun other => (mem other).lastIndex :=
    View.single_le_iff.mpr hi
  exact hlast

theorem Covers.append (h : mem.Covers view) (loc : Loc)
    (msg : Message Loc (Val loc)) : (mem.append loc msg).Covers view := by
  intro other
  exact Nat.le_trans (h other) (lastIndex_le_append mem loc msg other)

theorem Covers.sup_next (h : mem.Covers view) (loc : Loc)
    (msg : Message Loc (Val loc)) :
    (mem.append loc msg).Covers (view ⊔ View.single loc (mem.next loc)) := by
  refine (h.append loc msg).sup (covers_single ?_)
  rw [lastIndex_append_self]

theorem Grounded.append (h : mem.Grounded)
    (hmsg : (mem.append loc msg).Covers msg.view) :
    (mem.append loc msg).Grounded := by
  have hold : mem.Each
      (fun _ _ old => (mem.append loc msg).Covers old.view) :=
    h.mono (fun _ _ _ hcovers => hcovers.append loc msg)
  exact hold.append hmsg

namespace Knows

theorem append (h : mem.Knows t) (loc : Loc) (msg : Message Loc (Val loc)) :
    (mem.append loc msg).Knows t :=
  ⟨h.current.append loc msg, h.acquired.append loc msg,
    h.released.append loc msg⟩

theorem loadRelaxed (h : mem.Knows t) (hg : mem.Grounded) (loc : Loc) :
    mem.Knows (t.loadRelaxed loc (mem loc).lastIndex (mem loc).current) := by
  have hlast := covers_single (Nat.le_refl (mem loc).lastIndex)
  exact ⟨h.current.sup hlast, h.acquired.sup (hlast.sup (hg.newest loc)),
    h.released⟩

theorem loadAcquire (h : mem.Knows t) (hg : mem.Grounded) (loc : Loc) :
    mem.Knows (t.loadAcquire loc (mem loc).lastIndex (mem loc).current) := by
  have hlast := covers_single (Nat.le_refl (mem loc).lastIndex)
  exact ⟨h.current.sup (hlast.sup (hg.newest loc)),
    h.acquired.sup (hlast.sup (hg.newest loc)), h.released⟩

theorem stored (h : mem.Knows t) (loc : Loc) (msg : Message Loc (Val loc)) :
    (mem.append loc msg).Knows (t.stored loc (mem.next loc)) :=
  ⟨h.current.sup_next loc msg, h.acquired.sup_next loc msg,
    h.released.append loc msg⟩

end Knows

theorem Grounded.storeRelaxed (hg : mem.Grounded) (h : mem.Knows t) (loc : Loc)
    (v : Val loc) : (mem.storeRelaxed t loc v).1.Grounded :=
  hg.append (h.released.sup_next loc _)

theorem Grounded.storeRelease (hg : mem.Grounded) (h : mem.Knows t) (loc : Loc)
    (v : Val loc) : (mem.storeRelease t loc v).1.Grounded :=
  hg.append (h.current.sup_next loc _)

end ViewMemory
end Foundation
end LowLatency
