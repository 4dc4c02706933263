import LowLatency.Spsc.Slots

/-!
# Results of the calls

The accepted items are the items of the `push` calls that returned `None`, and
the popped items are the results of the `pop` calls that returned an item.  A
refused call has stored nothing.
-/

namespace LowLatency
namespace Spsc

open Foundation

/-- Steps after the full-check; their number is the number of stores made. -/
def PushPc.stores {T : Type _} : PushPc T -> Nat
  | PushPc.storeTail _ => 1
  | _ => 0

def PopPc.stores {T : Type _} : PopPc T -> Nat
  | PopPc.storeHead _ => 1
  | _ => 0

/-- A `push` hands back its own item without a store, or nothing after two. -/
def PushReturn.Faithful {T : Type _} (r : PushReturn T) : Prop :=
  (r.back = some r.item ∧ r.stores = 0) ∨ (r.back = none ∧ r.stores = 2)

def PopReturn.Faithful {T : Type _} (r : PopReturn T) : Prop :=
  (r.item = none ∧ r.stores = 0) ∨ (exists item, r.item = some item)

namespace System

variable {W : Nat} {cap : Capacity W} {T : Type _}
variable {s s' : System cap T}

structure Returns (s : System cap T) : Prop where
  pushFaithful : forall r, r ∈ s.log.pushReturns -> r.Faithful
  popFaithful : forall r, r ∈ s.log.popReturns -> r.Faithful
  accepted : s.log.accepted =
    (s.log.pushReturns.filter (fun r => r.back.isNone)).map PushReturn.item
  popped : s.log.popped = s.log.popReturns.filterMap PopReturn.item
  pushStores : s.pushPc ≠ PushPc.idle -> s.log.pushStores = s.pushPc.stores
  popStores : s.popPc ≠ PopPc.idle -> s.log.popStores = s.popPc.stores

namespace Returns

theorem new (cap : Capacity W) (T : Type _) : Returns (System.new cap T) where
  pushFaithful := by
    intro r hr
    cases hr
  popFaithful := by
    intro r hr
    cases hr
  accepted := rfl
  popped := rfl
  pushStores := by
    intro hpc
    exact absurd rfl hpc
  popStores := by
    intro hpc
    exact absurd rfl hpc

theorem pushLoadHead (hr : Returns s) {i : Nat}
    (h : s.pushLoadHead i = some s') : Returns s' := by
  rcases pushLoadHead_inv h with ⟨item, head, hpc, _, ⟨_, rfl⟩ | ⟨_, rfl⟩⟩
  · have hstores := hr.pushStores (by rw [hpc]; intro hidle; cases hidle)
    rw [hpc] at hstores
    refine { hr with pushFaithful := ?_, accepted := ?_, pushStores := ?_ }
    · intro r hmem
      rcases List.mem_append.mp hmem with hold | hnew
      · exact hr.pushFaithful r hold
      · rw [List.mem_singleton.mp hnew]
        exact Or.inl ⟨rfl, hstores⟩
    · simpa using hr.accepted
    · intro hidle
      exact absurd rfl hidle
  · refine { hr with pushStores := ?_ }
    intro _
    have hstores := hr.pushStores (by rw [hpc]; intro hidle; cases hidle)
    rw [hpc] at hstores
    exact hstores

theorem pushStoreTail (hr : Returns s) (h : s.pushStoreTail = some s') :
    Returns s' := by
  rcases pushStoreTail_inv h with ⟨item, hpc, rfl⟩
  have hstores := hr.pushStores (by rw [hpc]; intro hidle; cases hidle)
  rw [hpc] at hstores
  refine { hr with pushFaithful := ?_, accepted := ?_, pushStores := ?_ }
  · intro r hmem
    rcases List.mem_append.mp hmem with hold | hnew
    · exact hr.pushFaithful r hold
    · rw [List.mem_singleton.mp hnew]
      refine Or.inr ⟨rfl, ?_⟩
      show s.log.pushStores + 1 = 2
      rw [hstores]
      rfl
  · simp [← hr.accepted]
  · intro hidle
    exact absurd rfl hidle

theorem popLoadTail (hr : Returns s) {i : Nat}
    (h : s.popLoadTail i = some s') : Returns s' := by
  rcases popLoadTail_inv h with ⟨tail, hpc, _, ⟨_, rfl⟩ | ⟨_, rfl⟩⟩
  · have hstores := hr.popStores (by rw [hpc]; intro hidle; cases hidle)
    rw [hpc] at hstores
    refine { hr with popFaithful := ?_, popped := ?_, popStores := ?_ }
    · intro r hmem
      rcases List.mem_append.mp hmem with hold | hnew
      · exact hr.popFaithful r hold
      · rw [List.mem_singleton.mp hnew]
        exact Or.inl ⟨rfl, hstores⟩
    · simpa using hr.popped
    · intro hidle
      exact absurd rfl hidle
  · refine { hr with popStores := ?_ }
    intro _
    have hstores := hr.popStores (by rw [hpc]; intro hidle; cases hidle)
    rw [hpc] at hstores
    exact hstores

theorem popStoreHead (hr : Returns s) (h : s.popStoreHead = some s') :
    Returns s' := by
  rcases popStoreHead_inv h with ⟨item, hpc, rfl⟩
  refine { hr with popFaithful := ?_, popped := ?_, popStores := ?_ }
  · intro r hmem
    rcases List.mem_append.mp hmem with hold | hnew
    · exact hr.popFaithful r hold
    · rw [List.mem_singleton.mp hnew]
      exact Or.inr ⟨item, rfl⟩
  · simp [← hr.popped]
  · intro hidle
    exact absurd rfl hidle

theorem step (hr : Returns s) {a : Action T} (h : s.step a = some s') :
    Returns s' := by
  cases a with
  | pushCall item =>
      rcases pushCall_inv h with ⟨_, _, rfl⟩
      refine { hr with pushStores := ?_ }
      intro _
      cases s.producer.looksFull cap <;> simp [PushPc.stores]
  | pushLoadHead i => exact hr.pushLoadHead h
  | pushWriteSlot =>
      rcases pushWriteSlot_inv h with ⟨item, hpc, rfl⟩
      refine { hr with pushStores := ?_ }
      intro _
      have hstores := hr.pushStores (by rw [hpc]; intro hidle; cases hidle)
      rw [hpc] at hstores
      show s.log.pushStores + 1 = 1
      rw [hstores]
      rfl
  | pushStoreTail => exact hr.pushStoreTail h
  | popCall =>
      rcases popCall_inv h with ⟨_, _, rfl⟩
      refine { hr with popStores := ?_ }
      intro _
      cases s.consumer.looksEmpty <;> simp [PopPc.stores]
  | popLoadTail i => exact hr.popLoadTail h
  | popReadSlot =>
      rcases popReadSlot_inv h with ⟨hpc, rfl⟩
      refine { hr with popStores := ?_ }
      intro _
      have hstores := hr.popStores (by rw [hpc]; intro hidle; cases hidle)
      rw [hpc] at hstores
      show s.log.popStores + 1 = 1
      rw [hstores]
      rfl
  | popStoreHead => exact hr.popStoreHead h
  | dropProducer =>
      rcases dropProducer_inv h with ⟨_, _, ⟨_, rfl⟩ | ⟨_, rfl⟩⟩
      · exact { hr with }
      · exact { hr with }
  | dropConsumer =>
      rcases dropConsumer_inv h with ⟨_, _, ⟨_, rfl⟩ | ⟨_, rfl⟩⟩
      · exact { hr with }
      · exact { hr with }

theorem reachable (hs : (machine cap T).Reachable s) : Returns s :=
  hs.invariant (Returns.new cap T) (fun _ _ _ hr h => hr.step h)

end Returns
end System
end Spsc
end LowLatency
