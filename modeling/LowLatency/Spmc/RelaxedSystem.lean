import LowLatency.Foundation.SeqLocked
import LowLatency.Foundation.Threads
import LowLatency.Spmc.ViewAccounting

/-!
# The ring with relaxed payload words

Producer and consumers run on store histories with all orderings of the code.
The words of a payload are relaxed places of their own, and the fences stand in
front of the accesses that follow them.  Handles may be moved to other threads
between two calls, and their threads may synchronise by other means.
-/

namespace LowLatency
namespace Spmc

open Foundation

inductive Place {W : Nat} (cap : Capacity W) (m : Nat) where
  | writeCursor
  | seq (j : Fin cap.size)
  | word (j : Fin cap.size) (w : Fin m)
deriving DecidableEq

abbrev Place.Val {W : Nat} {cap : Capacity W} {m : Nat} (Word : Type) :
    Place cap m -> Type
  | writeCursor => BitVec W
  | seq _ => BitVec W
  | word _ _ => Word

/-- A slot of the ring: its `seq` guards the words of its `data`. -/
def Place.slot {W : Nat} {cap : Capacity W} {m : Nat} (j : Fin cap.size) :
    SeqLocked (Place cap m) m where
  seq := Place.seq j
  word := Place.word j

/-- `seqIndex` is history: the store of `seq` that `seq1` was read from. -/
structure RelaxedReader {W : Nat} (cap : Capacity W) (m : Nat)
    (Word : Type) where
  reader : Reader W m Word
  view : ThreadView (Place cap m)
  seqIndex : Nat

/-- The next step of a `try_read`, with the index of the store that it reads. -/
inductive RelaxedReadAction (m : Nat) where
  | call
  | loadWriteCursor (n : Nat)
  | loadSeq (k : Nat)
  | loadWord (w : Fin m) (u : Nat)
deriving DecidableEq, Repr

/-- `hear c none` synchronises with the producer, `hear c (some d)` with `d`. -/
inductive RelaxedAction (m : Nat) (Word : Type) where
  | publishCall (value : Payload m Word) (n : Nat)
  | publishStoreOdd
  | publishWriteWord (w : Fin m)
  | publishStoreEven
  | publishStoreCursor
  | read (c : Nat) (a : RelaxedReadAction m)
  | clone (parent child : Nat)
  | hear (c : Nat) (source : Option Nat)

structure RelaxedSystem {W : Nat} (cap : Capacity W) (m : Nat)
    (Word : Type) where
  memory : ViewMemory (Place cap m) (Place.Val Word)
  producer : ThreadView (Place cap m)
  publishPc : PublishPc W m Word
  readers : Nat -> Option (RelaxedReader cap m Word)
  published : List (Payload m Word)

namespace RelaxedSystem

variable {W : Nat} {cap : Capacity W} {m : Nat} {Word : Type}

def initialVal [Zero Word] : (place : Place cap m) -> Place.Val Word place
  | Place.writeCursor => 0#W
  | Place.seq _ => 0#W
  | Place.word _ _ => 0

def new (cap : Capacity W) (m : Nat) (Word : Type) [Zero Word] :
    RelaxedSystem cap m Word where
  memory := ViewMemory.init initialVal
  producer := ThreadView.start (Place cap m)
  publishPc := PublishPc.idle
  readers := Function.update (fun _ => none) 0
    (some ⟨Reader.new W m Word, ThreadView.start (Place cap m), 0⟩)
  published := []

def completed (s : RelaxedSystem cap m Word) : Nat :=
  (s.memory Place.writeCursor).lastIndex

def progress (s : RelaxedSystem cap m Word) : Progress where
  begun := s.published.length
  stamped := s.completed + s.publishPc.stamped
  completed := s.completed

/-!
## Steps of the producer
-/

/-- The producer may have been moved since its last `publish`. -/
def publishCall (s : RelaxedSystem cap m Word) (value : Payload m Word)
    (n : Nat) : Option (RelaxedSystem cap m Word) :=
  match s.publishPc,
    s.memory.load? s.producer.current Place.writeCursor n with
  | PublishPc.idle, some msg =>
      some { s with
        producer := s.producer.handOver.loadRelaxed Place.writeCursor n msg
        publishPc := PublishPc.storeOdd msg.value value
        published := s.published ++ [value] }
  | _, _ => none

/-- The relaxed odd store and the release fence after it. -/
def publishStoreOdd (s : RelaxedSystem cap m Word) :
    Option (RelaxedSystem cap m Word) :=
  match s.publishPc with
  | PublishPc.storeOdd wPos value =>
      let seqNo := wPos * 2#W
      let (memory, producer) := s.memory.storeRelaxed s.producer
        (Place.seq (cap.slotIndex wPos)) (seqNo + 1#W)
      some { s with
        memory := memory
        producer := producer.fenceRelease
        publishPc := PublishPc.writeData wPos value (fun _ => false) }
  | _ => none

def publishWriteWord (s : RelaxedSystem cap m Word) (w : Fin m) :
    Option (RelaxedSystem cap m Word) :=
  match s.publishPc with
  | PublishPc.writeData wPos value written =>
      if written w then none
      else
        let (memory, producer) := s.memory.storeRelaxed s.producer
          (Place.word (cap.slotIndex wPos) w) (value w)
        some { s with
          memory := memory
          producer := producer
          publishPc :=
            PublishPc.writeData wPos value
              (Function.update written w true) }
  | _ => none

def publishStoreEven (s : RelaxedSystem cap m Word) :
    Option (RelaxedSystem cap m Word) :=
  match s.publishPc with
  | PublishPc.writeData wPos _ written =>
      if forall w, written w = true then
        let seqNo := wPos * 2#W
        let (memory, producer) := s.memory.storeRelease s.producer
          (Place.seq (cap.slotIndex wPos)) (seqNo + 2#W)
        some { s with
          memory := memory
          producer := producer
          publishPc := PublishPc.storeCursor wPos }
      else none
  | _ => none

def publishStoreCursor (s : RelaxedSystem cap m Word) :
    Option (RelaxedSystem cap m Word) :=
  match s.publishPc with
  | PublishPc.storeCursor wPos =>
      let (memory, producer) := s.memory.storeRelease s.producer
        Place.writeCursor (wPos + 1#W)
      some { s with
        memory := memory
        producer := producer
        publishPc := PublishPc.idle }
  | _ => none

/-!
## Steps of the consumers
-/

/-- The acquire fence stands between the copy and the second load of `seq`. -/
def beforeSeq (r : RelaxedReader cap m Word) : ThreadView (Place cap m) :=
  match r.reader.thread.pc with
  | ReadPc.readData _ _ => r.view.fenceAcquire
  | _ => r.view

/-- The first load of `seq` is an acquire load, the second one is relaxed. -/
def afterSeq (r : RelaxedReader cap m Word) (reader : Reader W m Word)
    (j : Fin cap.size) (k : Nat) (msg : Message (Place cap m) (BitVec W)) :
    RelaxedReader cap m Word :=
  match r.reader.thread.pc with
  | ReadPc.loadSeq =>
      ⟨reader, (beforeSeq r).loadAcquire (Place.seq j) k msg, k⟩
  | _ => ⟨reader, (beforeSeq r).loadRelaxed (Place.seq j) k msg, r.seqIndex⟩

def readStep (s : RelaxedSystem cap m Word) (r : RelaxedReader cap m Word) :
    RelaxedReadAction m -> Option (RelaxedReader cap m Word)
  | RelaxedReadAction.call =>
      (r.reader.beginCall s.progress).map (fun reader =>
        { r with reader := reader, view := r.view.handOver })
  | RelaxedReadAction.loadWriteCursor n =>
      match s.memory.load? r.view.current Place.writeCursor n with
      | none => none
      | some msg =>
          (r.reader.gotWriteCursor s.progress n msg.value).map (fun reader =>
            { r with
              reader := reader
              view := r.view.loadAcquire Place.writeCursor n msg })
  | RelaxedReadAction.loadSeq k =>
      let j := r.reader.thread.state.slot cap
      match s.memory.load? (beforeSeq r).current (Place.seq j) k with
      | none => none
      | some msg =>
          (r.reader.gotSeq s.progress msg.value).map (fun reader =>
            afterSeq r reader j k msg)
  | RelaxedReadAction.loadWord w u =>
      let j := r.reader.thread.state.slot cap
      match s.memory.load? r.view.current (Place.word j w) u with
      | none => none
      | some msg =>
          (r.reader.gotWord w msg.value).map (fun reader =>
            { r with
              reader := reader
              view := r.view.loadRelaxed (Place.word j w) u msg })

def setReader (s : RelaxedSystem cap m Word) (c : Nat)
    (r : RelaxedReader cap m Word) : RelaxedSystem cap m Word :=
  { s with readers := Function.update s.readers c (some r) }

def read (s : RelaxedSystem cap m Word) (c : Nat) (a : RelaxedReadAction m) :
    Option (RelaxedSystem cap m Word) :=
  match s.readers c with
  | some r => (s.readStep r a).map (s.setReader c)
  | none => none

/-- A clone knows what its parent knows. -/
def clone (s : RelaxedSystem cap m Word) (parent child : Nat) :
    Option (RelaxedSystem cap m Word) :=
  match s.readers parent, s.readers child with
  | some r, none =>
      r.reader.clone.map (fun reader =>
        s.setReader child ⟨reader, r.view.handOver, r.seqIndex⟩)
  | _, _ => none

/-- What a party between two calls can tell another one. -/
def told (s : RelaxedSystem cap m Word) :
    Option Nat -> Option (View (Place cap m))
  | none =>
      match s.publishPc with
      | PublishPc.idle => some s.producer.current
      | _ => none
  | some d =>
      match s.readers d with
      | none => none
      | some r =>
          match r.reader.thread.pc with
          | ReadPc.idle => some r.view.current
          | _ => none

def hear (s : RelaxedSystem cap m Word) (c : Nat) (source : Option Nat) :
    Option (RelaxedSystem cap m Word) :=
  match s.readers c, s.told source with
  | some r, some view =>
      match r.reader.thread.pc with
      | ReadPc.idle =>
          some (s.setReader c { r with view := r.view.hear view })
      | _ => none
  | _, _ => none

def step (s : RelaxedSystem cap m Word) :
    RelaxedAction m Word -> Option (RelaxedSystem cap m Word)
  | RelaxedAction.publishCall value n => s.publishCall value n
  | RelaxedAction.publishStoreOdd => s.publishStoreOdd
  | RelaxedAction.publishWriteWord w => s.publishWriteWord w
  | RelaxedAction.publishStoreEven => s.publishStoreEven
  | RelaxedAction.publishStoreCursor => s.publishStoreCursor
  | RelaxedAction.read c a => s.read c a
  | RelaxedAction.clone parent child => s.clone parent child
  | RelaxedAction.hear c source => s.hear c source

end RelaxedSystem

def relaxedMachine {W : Nat} (cap : Capacity W) (m : Nat) (Word : Type)
    [Zero Word] : Machine (RelaxedSystem cap m Word) (RelaxedAction m Word) where
  start := RelaxedSystem.new cap m Word
  step := RelaxedSystem.step

/-!
## What each step does
-/

namespace RelaxedSystem

variable {W : Nat} {cap : Capacity W} {m : Nat} {Word : Type}
variable {s s' : RelaxedSystem cap m Word}

theorem publishCall_inv {value : Payload m Word} {n : Nat}
    (h : s.publishCall value n = some s') :
    exists msg, s.publishPc = PublishPc.idle ∧
      s.memory.load? s.producer.current Place.writeCursor n = some msg ∧
      s' = { s with
        producer := s.producer.handOver.loadRelaxed Place.writeCursor n msg
        publishPc := PublishPc.storeOdd msg.value value
        published := s.published ++ [value] } := by
  unfold publishCall at h
  split at h
  · rename_i msg hpc hload
    exact ⟨msg, hpc, hload, (Option.some.inj h).symm⟩
  · cases h

theorem publishStoreOdd_inv (h : s.publishStoreOdd = some s') :
    exists wPos value, s.publishPc = PublishPc.storeOdd wPos value ∧
      s' = { s with
        memory := (s.memory.storeRelaxed s.producer
          (Place.seq (cap.slotIndex wPos)) (wPos * 2#W + 1#W)).1
        producer := (s.memory.storeRelaxed s.producer
          (Place.seq (cap.slotIndex wPos))
            (wPos * 2#W + 1#W)).2.fenceRelease
        publishPc := PublishPc.writeData wPos value (fun _ => false) } := by
  unfold publishStoreOdd at h
  split at h
  · rename_i wPos value hpc
    exact ⟨wPos, value, hpc, (Option.some.inj h).symm⟩
  · cases h

theorem publishWriteWord_inv {w : Fin m}
    (h : s.publishWriteWord w = some s') :
    exists wPos value written,
      s.publishPc = PublishPc.writeData wPos value written ∧
      written w = false ∧
      s' = { s with
        memory := (s.memory.storeRelaxed s.producer
          (Place.word (cap.slotIndex wPos) w) (value w)).1
        producer := (s.memory.storeRelaxed s.producer
          (Place.word (cap.slotIndex wPos) w) (value w)).2
        publishPc :=
          PublishPc.writeData wPos value
            (Function.update written w true) } := by
  unfold publishWriteWord at h
  split at h
  · rename_i wPos value written hpc
    split at h
    · cases h
    · rename_i hwritten
      exact ⟨wPos, value, written, hpc, Bool.eq_false_iff.mpr hwritten,
        (Option.some.inj h).symm⟩
  · cases h

theorem publishStoreEven_inv (h : s.publishStoreEven = some s') :
    exists wPos value written,
      s.publishPc = PublishPc.writeData wPos value written ∧
      (forall w, written w = true) ∧
      s' = { s with
        memory := (s.memory.storeRelease s.producer
          (Place.seq (cap.slotIndex wPos)) (wPos * 2#W + 2#W)).1
        producer := (s.memory.storeRelease s.producer
          (Place.seq (cap.slotIndex wPos)) (wPos * 2#W + 2#W)).2
        publishPc := PublishPc.storeCursor wPos } := by
  unfold publishStoreEven at h
  split at h
  · rename_i wPos value written hpc
    split at h
    · rename_i hall
      exact ⟨wPos, value, written, hpc, hall, (Option.some.inj h).symm⟩
    · cases h
  · cases h

theorem publishStoreCursor_inv (h : s.publishStoreCursor = some s') :
    exists wPos, s.publishPc = PublishPc.storeCursor wPos ∧
      s' = { s with
        memory := (s.memory.storeRelease s.producer
          Place.writeCursor (wPos + 1#W)).1
        producer := (s.memory.storeRelease s.producer
          Place.writeCursor (wPos + 1#W)).2
        publishPc := PublishPc.idle } := by
  unfold publishStoreCursor at h
  split at h
  · rename_i wPos hpc
    exact ⟨wPos, hpc, (Option.some.inj h).symm⟩
  · cases h

theorem read_inv {c : Nat} {a : RelaxedReadAction m}
    (h : s.read c a = some s') :
    exists r r', s.readers c = some r ∧ s.readStep r a = some r' ∧
      s' = s.setReader c r' := by
  unfold read at h
  split at h
  · rename_i r hr
    rcases Option.map_eq_some_iff.mp h with ⟨r', hstep, hs'⟩
    exact ⟨r, r', hr, hstep, hs'.symm⟩
  · cases h

theorem clone_inv {parent child : Nat} (h : s.clone parent child = some s') :
    exists r reader, s.readers parent = some r ∧
      s.readers child = none ∧ r.reader.clone = some reader ∧
      s' = s.setReader child ⟨reader, r.view.handOver, r.seqIndex⟩ := by
  unfold clone at h
  split at h
  · rename_i r hr hnone
    rcases Option.map_eq_some_iff.mp h with ⟨reader, hclone, hs'⟩
    exact ⟨r, reader, hr, hnone, hclone, hs'.symm⟩
  · cases h

theorem told_inv {source : Option Nat} {view : View (Place cap m)}
    (h : s.told source = some view) :
    (source = none ∧ s.publishPc = PublishPc.idle ∧
      view = s.producer.current) ∨
    (exists d r, source = some d ∧ s.readers d = some r ∧
      r.reader.thread.pc = ReadPc.idle ∧ view = r.view.current) := by
  cases source with
  | none =>
      simp only [told] at h
      split at h
      · rename_i hpc
        exact Or.inl ⟨rfl, hpc, (Option.some.inj h).symm⟩
      · cases h
  | some d =>
      simp only [told] at h
      split at h
      · cases h
      · rename_i r hr
        split at h
        · rename_i hpc
          exact Or.inr ⟨d, r, rfl, hr, hpc, (Option.some.inj h).symm⟩
        · cases h

theorem hear_inv {c : Nat} {source : Option Nat}
    (h : s.hear c source = some s') :
    exists r view, s.readers c = some r ∧ s.told source = some view ∧
      r.reader.thread.pc = ReadPc.idle ∧
      s' = s.setReader c { r with view := r.view.hear view } := by
  unfold hear at h
  split at h
  · rename_i r view hr htold
    split at h
    · rename_i hpc
      exact ⟨r, view, hr, htold, hpc, (Option.some.inj h).symm⟩
    · cases h
  · cases h

section ReadSteps

variable {r r' : RelaxedReader cap m Word}

theorem call_inv (h : s.readStep r RelaxedReadAction.call = some r') :
    exists reader, r.reader.beginCall s.progress = some reader ∧
      r' = { r with reader := reader, view := r.view.handOver } := by
  rcases Option.map_eq_some_iff.mp h with ⟨reader, hcall, hr'⟩
  exact ⟨reader, hcall, hr'.symm⟩

theorem loadWriteCursor_inv {n : Nat}
    (h : s.readStep r (RelaxedReadAction.loadWriteCursor n) = some r') :
    exists msg reader,
      s.memory.load? r.view.current Place.writeCursor n = some msg ∧
      r.reader.gotWriteCursor s.progress n msg.value = some reader ∧
      r' = { r with
        reader := reader
        view := r.view.loadAcquire Place.writeCursor n msg } := by
  simp only [readStep] at h
  split at h
  · cases h
  · rename_i msg hload
    rcases Option.map_eq_some_iff.mp h with ⟨reader, hgot, hr'⟩
    exact ⟨msg, reader, hload, hgot, hr'.symm⟩

theorem loadSeq_inv {k : Nat}
    (h : s.readStep r (RelaxedReadAction.loadSeq k) = some r') :
    exists (msg : Message (Place cap m) (BitVec W)) (reader : Reader W m Word),
      s.memory.load? (beforeSeq r).current
        (Place.seq (r.reader.thread.state.slot cap)) k = some msg ∧
      r.reader.gotSeq s.progress msg.value = some reader ∧
      r' = afterSeq r reader (r.reader.thread.state.slot cap) k msg := by
  simp only [readStep] at h
  split at h
  · cases h
  · rename_i msg hload
    rcases Option.map_eq_some_iff.mp h with ⟨reader, hgot, hr'⟩
    exact ⟨msg, reader, hload, hgot, hr'.symm⟩

theorem loadWord_inv {w : Fin m} {u : Nat}
    (h : s.readStep r (RelaxedReadAction.loadWord w u) = some r') :
    exists (msg : Message (Place cap m) Word) (reader : Reader W m Word),
      s.memory.load? r.view.current
        (Place.word (r.reader.thread.state.slot cap) w) u = some msg ∧
      r.reader.gotWord w msg.value = some reader ∧
      r' = { r with
        reader := reader
        view := r.view.loadRelaxed
          (Place.word (r.reader.thread.state.slot cap) w) u msg } := by
  simp only [readStep] at h
  split at h
  · cases h
  · rename_i msg hload
    rcases Option.map_eq_some_iff.mp h with ⟨reader, hgot, hr'⟩
    exact ⟨msg, reader, hload, hgot, hr'.symm⟩

end ReadSteps

theorem readers_setReader {c d : Nat} {r r' : RelaxedReader cap m Word}
    (h : (s.setReader c r').readers d = some r) :
    (d = c ∧ r = r') ∨ s.readers d = some r :=
  new_or_old_of_update h

inductive Origin (s : RelaxedSystem cap m Word) (c : Nat) :
    RelaxedReader cap m Word -> Prop where
  | old {r : RelaxedReader cap m Word} : s.readers c = some r -> Origin s c r
  | stepped {r r' : RelaxedReader cap m Word} {a : RelaxedReadAction m} :
      s.readers c = some r -> s.readStep r a = some r' -> Origin s c r'
  | cloned {parent : Nat} {r : RelaxedReader cap m Word}
      {reader : Reader W m Word} :
      s.readers parent = some r -> s.readers c = none ->
      r.reader.clone = some reader ->
      Origin s c ⟨reader, r.view.handOver, r.seqIndex⟩
  | heard {r : RelaxedReader cap m Word} {source : Option Nat}
      {view : View (Place cap m)} :
      s.readers c = some r -> s.told source = some view ->
      r.reader.thread.pc = ReadPc.idle ->
      Origin s c { r with view := r.view.hear view }

theorem step_origin {a : RelaxedAction m Word} (h : s.step a = some s')
    {c : Nat} {r : RelaxedReader cap m Word} (hr : s'.readers c = some r) :
    Origin s c r := by
  cases a with
  | publishCall value n =>
      rcases publishCall_inv h with ⟨_, _, _, rfl⟩
      exact Origin.old hr
  | publishStoreOdd =>
      rcases publishStoreOdd_inv h with ⟨_, _, _, rfl⟩
      exact Origin.old hr
  | publishWriteWord w =>
      rcases publishWriteWord_inv h with ⟨_, _, _, _, _, rfl⟩
      exact Origin.old hr
  | publishStoreEven =>
      rcases publishStoreEven_inv h with ⟨_, _, _, _, _, rfl⟩
      exact Origin.old hr
  | publishStoreCursor =>
      rcases publishStoreCursor_inv h with ⟨_, _, rfl⟩
      exact Origin.old hr
  | read d b =>
      rcases read_inv h with ⟨r₀, r₁, hr₀, hstep, rfl⟩
      rcases readers_setReader hr with ⟨rfl, rfl⟩ | hold
      · exact Origin.stepped hr₀ hstep
      · exact Origin.old hold
  | clone parent child =>
      rcases clone_inv h with ⟨r₀, reader, hr₀, hnone, hclone, rfl⟩
      rcases readers_setReader hr with ⟨rfl, rfl⟩ | hold
      · exact Origin.cloned hr₀ hnone hclone
      · exact Origin.old hold
  | hear d source =>
      rcases hear_inv h with ⟨r₀, view, hr₀, htold, hpc, rfl⟩
      rcases readers_setReader hr with ⟨rfl, rfl⟩ | hold
      · exact Origin.heard hr₀ htold hpc
      · exact Origin.old hold

theorem readers_new [Zero Word] {c : Nat} {r : RelaxedReader cap m Word}
    (h : (new cap m Word).readers c = some r) :
    r = ⟨Reader.new W m Word, ThreadView.start (Place cap m), 0⟩ := by
  simp only [new] at h
  rcases new_or_old_of_update h with ⟨_, hr⟩ | hnone
  · exact hr
  · cases hnone

end RelaxedSystem
end Spmc
end LowLatency
