import LowLatency.Foundation.NewestLoads
import LowLatency.Spmc.ViewSystem

/-!
# Interleavings as executions under weak memory

With every load returning the newest store, and every word of a payload the one
that is in the slot, each interleaving of the steps on the ring is one of the
executions under weak memory, and all readers have the same history in both.
-/

namespace LowLatency
namespace Spmc

open Foundation

variable {W : Nat} {cap : Capacity W} {m : Nat} {Word : Type _}

/-!
## The ring of the newest stores
-/

structure Newest (q : Queue cap m Word)
    (memory : ViewMemory (Location cap) (fun _ => BitVec W)) : Prop where
  writeCursor : q.writeCursor = (memory Location.writeCursor).current.value
  seq : forall j, (q.slots j).seq = (memory (Location.seq j)).current.value

namespace Newest

variable {q : Queue cap m Word}
variable {memory : ViewMemory (Location cap) (fun _ => BitVec W)}

theorem storeSeq (hq : Newest q memory) (j : Fin cap.size) (seq : BitVec W)
    (view : View (Location cap)) :
    Newest (q.storeSeq j seq) (memory.append (Location.seq j) ⟨seq, view⟩) := by
  constructor
  · rw [ViewMemory.current_append_of_ne _ _ (Location.writeCursor_ne_seq j)]
    exact hq.writeCursor
  · intro k
    rcases eq_or_ne k j with rfl | hne
    · rw [Queue.storeSeq_slots_self, ViewMemory.current_append_self]
    · have hloc : Location.seq k ≠ Location.seq j := by
        intro h
        cases h
        exact hne rfl
      rw [Queue.storeSeq_slots_of_ne q seq hne,
        ViewMemory.current_append_of_ne _ _ hloc]
      exact hq.seq k

theorem storeCursor (hq : Newest q memory) (writeCursor : BitVec W)
    (view : View (Location cap)) :
    Newest { q with writeCursor := writeCursor }
      (memory.append Location.writeCursor ⟨writeCursor, view⟩) := by
  constructor
  · rw [ViewMemory.current_append_self]
  · intro j
    have hne := (Location.writeCursor_ne_seq j).symm
    rw [ViewMemory.current_append_of_ne _ _ hne]
    exact hq.seq j

theorem writeWord (hq : Newest q memory) (j : Fin cap.size) (i : Fin m)
    (word : Word) : Newest (q.writeWord j i word) memory := by
  exists hq.writeCursor
  intro k
  rw [Queue.writeWord]
  rcases eq_or_ne k j with rfl | hne
  · rw [Queue.writeData_slots_self]
    exact hq.seq k
  · rw [Queue.writeData_slots_of_ne q _ hne]
    exact hq.seq k

end Newest

structure Mirrors (s : System cap m Word) (t : ViewSystem cap m Word) :
    Prop where
  queue : Newest s.queue t.memory
  publishPc : s.publishPc = t.publishPc
  readers : forall c, s.readers c = (t.readers c).map ViewReader.reader
  published : s.published = t.published
  completed : s.completed = t.completed
  grounded : t.memory.Grounded
  producer : t.memory.Knows t.producer
  known : forall c r, t.readers c = some r -> t.memory.Covers r.view

namespace Mirrors

variable {s s' : System cap m Word} {t : ViewSystem cap m Word}

theorem new (cap : Capacity W) (m : Nat) (Word : Type _) [Zero Word] :
    Mirrors (System.new cap m Word) (ViewSystem.new cap m Word) := by
  refine ⟨⟨rfl, fun _ => rfl⟩, rfl, ?_, rfl, rfl,
    ViewMemory.grounded_init _, ViewMemory.knows_start _, ?_⟩
  · exact update_map (p := ViewReader.reader) (g := fun _ => none)
      (fun _ => rfl) 0 ⟨Reader.new W m Word, View.bottom (Location cap)⟩
  · intro c r hr
    rw [ViewSystem.readers_new hr]
    exact ViewMemory.covers_bottom _

theorem progress (hs : Mirrors s t) : s.progress = t.progress := by
  simp only [System.progress, ViewSystem.progress, System.stamped,
    hs.published, hs.publishPc, hs.completed]

/-!
## Steps of the producer
-/

theorem publishCall (hs : Mirrors s t) {value : Payload m Word}
    (h : s.publishCall value = some s') :
    exists t', t.publishCall value t.completed = some t' ∧ Mirrors s' t' := by
  rcases System.publishCall_inv h with ⟨hpc, rfl⟩
  rw [hs.publishPc] at hpc
  have hload := hs.producer.current.load_newest Location.writeCursor
  have hcall : t.publishCall value t.completed = some { t with
      producer := t.producer.loadRelaxed Location.writeCursor t.completed
        (t.memory Location.writeCursor).current
      publishPc := PublishPc.storeOdd
        (t.memory Location.writeCursor).current.value value
      published := t.published ++ [value] } := by
    rw [ViewSystem.publishCall, hpc, ViewSystem.completed, hload]
  refine ⟨_, hcall, ?_⟩
  exact { hs with
    publishPc := by rw [hs.queue.writeCursor]
    published := congrArg (· ++ [value]) hs.published
    producer := hs.producer.loadRelaxed hs.grounded _ }

theorem publishStoreOdd (hs : Mirrors s t) (h : s.publishStoreOdd = some s') :
    exists t', t.publishStoreOdd = some t' ∧ Mirrors s' t' := by
  rcases System.publishStoreOdd_inv h with ⟨wPos, value, hpc, rfl⟩
  rw [hs.publishPc] at hpc
  have hstore : t.publishStoreOdd = some { t with
      memory := (t.memory.storeRelaxed t.producer
        (Location.seq (cap.slotIndex wPos)) (wPos * 2#W + 1#W)).1
      producer := (t.memory.storeRelaxed t.producer
        (Location.seq (cap.slotIndex wPos))
          (wPos * 2#W + 1#W)).2.fenceRelease
      publishPc := PublishPc.writeData wPos value (fun _ => false) } := by
    rw [ViewSystem.publishStoreOdd, hpc]
  refine ⟨_, hstore, ?_⟩
  exact { hs with
    queue := hs.queue.storeSeq _ _ _
    publishPc := rfl
    grounded := hs.grounded.storeRelaxed hs.producer _ _
    producer := (hs.producer.stored _ _).fenceRelease
    known := fun c r hr => (hs.known c r hr).append _ _ }

theorem publishWriteWord (hs : Mirrors s t) {i : Fin m}
    (h : s.publishWriteWord i = some s') :
    exists t', t.publishWriteWord i = some t' ∧ Mirrors s' t' := by
  rcases System.publishWriteWord_inv h with
    ⟨wPos, value, written, hpc, hi, rfl⟩
  rw [hs.publishPc] at hpc
  have hwrite : t.publishWriteWord i = some { t with
      publishPc :=
        PublishPc.writeData wPos value (Function.update written i true) } := by
    simp only [ViewSystem.publishWriteWord, hpc, hi, Bool.false_eq_true,
      if_false]
  refine ⟨_, hwrite, ?_⟩
  exact { hs with
    queue := hs.queue.writeWord _ _ _
    publishPc := rfl }

theorem publishStoreEven (hs : Mirrors s t) (h : s.publishStoreEven = some s') :
    exists t', t.publishStoreEven = some t' ∧ Mirrors s' t' := by
  rcases System.publishStoreEven_inv h with
    ⟨wPos, value, written, hpc, hall, rfl⟩
  rw [hs.publishPc] at hpc
  have hstore : t.publishStoreEven = some { t with
      memory := (t.memory.storeRelease t.producer
        (Location.seq (cap.slotIndex wPos)) (wPos * 2#W + 2#W)).1
      producer := (t.memory.storeRelease t.producer
        (Location.seq (cap.slotIndex wPos)) (wPos * 2#W + 2#W)).2
      publishPc := PublishPc.storeCursor wPos } := by
    simp only [ViewSystem.publishStoreEven, hpc]
    rw [if_pos hall]
  refine ⟨_, hstore, ?_⟩
  exact { hs with
    queue := hs.queue.storeSeq _ _ _
    publishPc := rfl
    grounded := hs.grounded.storeRelease hs.producer _ _
    producer := hs.producer.stored _ _
    known := fun c r hr => (hs.known c r hr).append _ _ }

theorem publishStoreCursor (hs : Mirrors s t)
    (h : s.publishStoreCursor = some s') :
    exists t', t.publishStoreCursor = some t' ∧ Mirrors s' t' := by
  rcases System.publishStoreCursor_inv h with ⟨wPos, hpc, rfl⟩
  rw [hs.publishPc] at hpc
  have hstore : t.publishStoreCursor = some { t with
      memory := (t.memory.storeRelease t.producer
        Location.writeCursor (wPos + 1#W)).1
      producer := (t.memory.storeRelease t.producer
        Location.writeCursor (wPos + 1#W)).2
      publishPc := PublishPc.idle } := by
    rw [ViewSystem.publishStoreCursor, hpc]
  refine ⟨_, hstore, ?_⟩
  exact { hs with
    queue := hs.queue.storeCursor _ _
    publishPc := rfl
    completed := by
      rw [hs.completed]
      exact Eq.symm (ViewMemory.lastIndex_append_self t.memory _ _)
    grounded := hs.grounded.storeRelease hs.producer _ _
    producer := hs.producer.stored _ _
    known := fun c r hr => (hs.known c r hr).append _ _ }

/-!
## Steps of the consumers
-/

theorem setReader (hs : Mirrors s t) (c : Nat) {r : ViewReader cap m Word}
    (hview : t.memory.Covers r.view) :
    Mirrors (s.setReader c r.reader) (t.setReader c r) := by
  refine { hs with readers := ?_, known := ?_ }
  · exact update_map hs.readers c r
  · intro d r' hr'
    rcases ViewSystem.readers_setReader hr' with ⟨_, rfl⟩ | hold
    · exact hview
    · exact hs.known d r' hold

theorem covers_acquire (hs : Mirrors s t) {view : View (Location cap)}
    (hview : t.memory.Covers view) (loc : Location cap) :
    t.memory.Covers (ViewSystem.acquire view loc (t.memory loc).lastIndex
      (t.memory loc).current) :=
  hview.sup ((ViewMemory.covers_single (Nat.le_refl _)).sup
    (hs.grounded.newest loc))

def newestRead (s : System cap m Word) (t : ViewSystem cap m Word)
    (r : Reader W m Word) : ReadAction m -> ViewReadAction m Word
  | ReadAction.call => ViewReadAction.call
  | ReadAction.loadWriteCursor => ViewReadAction.loadWriteCursor t.completed
  | ReadAction.loadSeq =>
      ViewReadAction.loadSeq
        (t.memory (Location.seq (r.thread.state.slot cap))).lastIndex
  | ReadAction.loadWord i =>
      ViewReadAction.loadWord i
        ((s.queue.slots (r.thread.state.slot cap)).data i)

theorem readStep (hs : Mirrors s t) {r : ViewReader cap m Word}
    (hview : t.memory.Covers r.view) {a : ReadAction m}
    {reader : Reader W m Word} (h : s.readStep r.reader a = some reader) :
    exists view, t.memory.Covers view ∧
      t.readStep r (newestRead s t r.reader a) = some ⟨reader, view⟩ := by
  cases a with
  | call =>
      refine ⟨r.view, hview, ?_⟩
      have hcall : r.reader.beginCall t.progress = some reader := by
        rw [← hs.progress]
        exact h
      simp only [newestRead, ViewSystem.readStep, hcall, Option.map_some]
  | loadWriteCursor =>
      refine ⟨_, hs.covers_acquire hview Location.writeCursor, ?_⟩
      have hgot : r.reader.gotWriteCursor t.progress t.completed
          (t.memory Location.writeCursor).current.value = some reader := by
        rw [← hs.progress, ← hs.completed, ← hs.queue.writeCursor]
        exact h
      have hload := hview.load_newest Location.writeCursor
      simp only [newestRead, ViewSystem.readStep]
      rw [show t.completed = (t.memory Location.writeCursor).lastIndex from rfl]
        at hgot ⊢
      simp only [hload, hgot, Option.map_some]
  | loadSeq =>
      have hgot : r.reader.gotSeq t.progress (t.memory
          (Location.seq (r.reader.thread.state.slot cap))).current.value =
            some reader := by
        rw [← hs.progress, ← hs.queue.seq]
        exact h
      have hload := hview.load_newest
        (Location.seq (r.reader.thread.state.slot cap))
      exists ViewSystem.afterSeq r
        (Location.seq (r.reader.thread.state.slot cap))
        (t.memory (Location.seq (r.reader.thread.state.slot cap))).lastIndex
        (t.memory (Location.seq (r.reader.thread.state.slot cap))).current
      constructor
      · unfold ViewSystem.afterSeq
        split
        · exact hs.covers_acquire hview _
        · exact hview
      · simp only [newestRead, ViewSystem.readStep, hload, hgot,
          Option.map_some]
  | loadWord i =>
      refine ⟨r.view, hview, ?_⟩
      have hgot : r.reader.gotWord i
          ((s.queue.slots (r.reader.thread.state.slot cap)).data i) =
            some reader := h
      simp only [newestRead, ViewSystem.readStep, hgot, Option.map_some]

theorem read (hs : Mirrors s t) {c : Nat} {a : ReadAction m}
    (h : s.read c a = some s') :
    exists b t', t.read c b = some t' ∧ Mirrors s' t' := by
  rcases System.read_inv h with ⟨_, reader, hreader, hstep, rfl⟩
  rw [hs.readers] at hreader
  rcases Option.map_eq_some_iff.mp hreader with ⟨r, hr, rfl⟩
  rcases hs.readStep (hs.known c r hr) hstep with ⟨view, hview, hread⟩
  refine ⟨newestRead s t r.reader a, _, ?_,
    hs.setReader c (r := ⟨reader, view⟩) hview⟩
  simp only [ViewSystem.read, hr, hread, Option.map_some]

theorem clone (hs : Mirrors s t) {parent child : Nat}
    (h : s.clone parent child = some s') :
    exists t', t.clone parent child = some t' ∧ Mirrors s' t' := by
  rcases System.clone_inv h with ⟨_, reader, hreader, hnone, hclone, rfl⟩
  rw [hs.readers] at hreader hnone
  rcases Option.map_eq_some_iff.mp hreader with ⟨r, hr, rfl⟩
  have hnone' := Option.map_eq_none_iff.mp hnone
  refine ⟨_, ?_, hs.setReader child (r := ⟨reader, r.view⟩)
    (hs.known parent r hr)⟩
  simp only [ViewSystem.clone, hr, hnone', hclone, Option.map_some]

theorem step (hs : Mirrors s t) {a : Action m Word}
    (h : s.step a = some s') :
    exists b t', t.step b = some t' ∧ Mirrors s' t' := by
  cases a with
  | publishCall value =>
      exact ⟨ViewAction.publishCall value t.completed, hs.publishCall h⟩
  | publishStoreOdd =>
      exact ⟨ViewAction.publishStoreOdd, hs.publishStoreOdd h⟩
  | publishWriteWord i =>
      exact ⟨ViewAction.publishWriteWord i, hs.publishWriteWord h⟩
  | publishStoreEven =>
      exact ⟨ViewAction.publishStoreEven, hs.publishStoreEven h⟩
  | publishStoreCursor =>
      exact ⟨ViewAction.publishStoreCursor, hs.publishStoreCursor h⟩
  | read c a =>
      rcases hs.read h with ⟨b, t', hread, hmirrors⟩
      exact ⟨ViewAction.read c b, t', hread, hmirrors⟩
  | clone parent child =>
      exact ⟨ViewAction.clone parent child, hs.clone h⟩

end Mirrors

/-- Every interleaving is an execution under weak memory. -/
theorem interleaving_reachable [Zero Word] {s : System cap m Word}
    (hs : (machine cap m Word).Reachable s) :
    exists t, (viewMachine cap m Word).Reachable t ∧ Mirrors s t :=
  hs.simulate (Mirrors.new cap m Word) (fun _ _ _ _ hrel h => hrel.step h)

end Spmc
end LowLatency
