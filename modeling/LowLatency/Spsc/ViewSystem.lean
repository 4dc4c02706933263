import LowLatency.Foundation.Threads
import LowLatency.Spsc.System

/-!
# The queue under release and acquire

Producer and consumer run on a view memory with the orderings of the code, from
`new` to the end of `Queue::drop`.  The slots are plain places, so that every
access to them is checked for data races, and the place `accesses` counts what a
side does to the memory of the queue, for the check that the memory is released
after all of it.  Between two calls the program around the queue may store and
load its own atomics, the places of `Client`.
-/

namespace LowLatency
namespace Spsc

open Foundation

inductive Place {W : Nat} (cap : Capacity W) (Client : Type) where
  | head
  | tail
  /-- The strong count of the `Arc`. -/
  | strong
  | slot (j : Fin cap.size)
  | accesses (side : Side)
  | client (x : Client)
deriving DecidableEq

abbrev Place.Val {W : Nat} {cap : Capacity W} {Client : Type} (V T : Type) :
    Place cap Client -> Type
  | head => BitVec W
  | tail => BitVec W
  | strong => Nat
  | slot _ => Slot T
  | accesses _ => Unit
  | client _ => V

/-- Where the drop of the last handle stands, once the count was found to be one. -/
inductive DropPc (W : Nat) where
  | alive
  | fence (side : Side)
  | loadHead (side : Side)
  | loadTail (side : Side) (head : BitVec W)
  /-- The loop of `Queue::drop` at offset `k`. -/
  | destroy (side : Side) (head : BitVec W) (k remaining : Nat)
  | freed
deriving DecidableEq, Repr

def DropPc.side? {W : Nat} : DropPc W -> Option Side
  | alive => none
  | fence side => some side
  | loadHead side => some side
  | loadTail side _ => some side
  | destroy side _ _ _ => some side
  | freed => none

inductive ViewAction (Client V T : Type) where
  | pushCall (item : T)
  | pushLoadHead (i : Nat)
  | pushWriteSlot
  | pushStoreTail
  | popCall
  | popLoadTail (i : Nat)
  | popReadSlot
  | popStoreHead
  | dropHandle (side : Side)
  | dropFence
  | dropLoadHead (i : Nat)
  | dropLoadTail (i : Nat)
  | dropSlot
  | dropFree
  | clientStore (side : Side) (x : Client) (v : V)
  | clientLoad (side : Side) (x : Client) (i : Nat)

/--
`headSeen` and `tailSeen` are history, as are `usedFreed`, which marks an access
to the queue after its memory was released, and all that follows it.
-/
structure ViewSystem {W : Nat} (cap : Capacity W) (Client V T : Type) where
  threads : Threads Side (Place cap Client) (Place.Val V T)
  producer : Producer W
  pushPc : PushPc T
  headSeen : Nat
  consumer : Consumer W
  popPc : PopPc T
  tailSeen : Nat
  handle : Side -> Bool
  disposal : DropPc W
  usedFreed : Bool
  accepted : List T
  popped : List (Option T)
  pushResults : List (Option T)
  popResults : List (Option (Option T))
  destroyed : List (Slot T)

namespace ViewSystem

variable {W : Nat} {cap : Capacity W} {Client V T : Type}

def initialVal (cap : Capacity W) (T : Type) (clients : Client -> V) :
    (place : Place cap Client) -> Place.Val V T place
  | Place.head => 0#W
  | Place.tail => 0#W
  | Place.strong => (2 : Nat)
  | Place.slot _ => Slot.uninit
  | Place.accesses _ => ()
  | Place.client x => clients x

/-- The state after `spsc::new`, with two handles that share the `Arc`. -/
def new (cap : Capacity W) (T : Type) (clients : Client -> V) :
    ViewSystem cap Client V T where
  threads := Threads.start Side (initialVal cap T clients)
  producer := Producer.new W
  pushPc := PushPc.idle
  headSeen := 0
  consumer := Consumer.new W
  popPc := PopPc.idle
  tailSeen := 0
  handle := fun _ => true
  disposal := DropPc.alive
  usedFreed := false
  accepted := []
  popped := []
  pushResults := []
  popResults := []
  destroyed := []

/-- The side runs neither a call nor `Queue::drop`. -/
def between (s : ViewSystem cap Client V T) (side : Side) : Bool :=
  (match side, s.pushPc, s.popPc with
    | Side.producer, PushPc.idle, _ => true
    | Side.consumer, _, PopPc.idle => true
    | _, _, _ => false) &&
    s.disposal.side? != some side

variable [DecidableEq Client]

/-- The side is about to access the memory of the queue. -/
def touch (s : ViewSystem cap Client V T) (side : Side) :
    ViewSystem cap Client V T :=
  { s with
    threads := s.threads.access side (Place.accesses side) ()
    usedFreed := s.usedFreed || s.disposal == DropPc.freed }

/-!
## Steps of the producer
-/

/-- The handle may have been moved to another thread since its last call. -/
def pushCall (s : ViewSystem cap Client V T) (item : T) :
    Option (ViewSystem cap Client V T) :=
  if s.handle Side.producer then
    match s.pushPc with
    | PushPc.idle =>
        some { s with
          threads := s.threads.handOver Side.producer
          pushPc :=
            if s.producer.looksFull cap then PushPc.loadHead item
            else PushPc.writeSlot item }
    | _ => none
  else none

def pushLoadHead (s : ViewSystem cap Client V T) (i : Nat) :
    Option (ViewSystem cap Client V T) :=
  match s.pushPc with
  | PushPc.loadHead item =>
      let s := s.touch Side.producer
      match s.threads.loadAcquire Side.producer Place.head i with
      | none => none
      | some (head, threads) =>
          let (full, p) := s.producer.stillFull cap head
          if full then
            some { s with
              threads := threads
              producer := p
              headSeen := i
              pushPc := PushPc.idle
              pushResults := s.pushResults ++ [some item] }
          else
            some { s with
              threads := threads
              producer := p
              headSeen := i
              pushPc := PushPc.writeSlot item }
  | _ => none

def pushWriteSlot (s : ViewSystem cap Client V T) :
    Option (ViewSystem cap Client V T) :=
  match s.pushPc with
  | PushPc.writeSlot item =>
      let s := s.touch Side.producer
      some { s with
        threads := s.threads.access Side.producer
          (Place.slot (s.producer.slot cap)) (Slot.live item)
        pushPc := PushPc.storeTail item }
  | _ => none

def pushStoreTail (s : ViewSystem cap Client V T) :
    Option (ViewSystem cap Client V T) :=
  match s.pushPc with
  | PushPc.storeTail item =>
      let s := s.touch Side.producer
      let p := s.producer.advance
      some { s with
        threads := s.threads.storeRelease Side.producer Place.tail p.cachedTail
        producer := p
        pushPc := PushPc.idle
        accepted := s.accepted ++ [item]
        pushResults := s.pushResults ++ [none] }
  | _ => none

/-!
## Steps of the consumer
-/

def popCall (s : ViewSystem cap Client V T) :
    Option (ViewSystem cap Client V T) :=
  if s.handle Side.consumer then
    match s.popPc with
    | PopPc.idle =>
        some { s with
          threads := s.threads.handOver Side.consumer
          popPc :=
            if s.consumer.looksEmpty then PopPc.loadTail else PopPc.readSlot }
    | _ => none
  else none

def popLoadTail (s : ViewSystem cap Client V T) (i : Nat) :
    Option (ViewSystem cap Client V T) :=
  match s.popPc with
  | PopPc.loadTail =>
      let s := s.touch Side.consumer
      match s.threads.loadAcquire Side.consumer Place.tail i with
      | none => none
      | some (tail, threads) =>
          let (empty, c) := s.consumer.stillEmpty tail
          if empty then
            some { s with
              threads := threads
              consumer := c
              tailSeen := i
              popPc := PopPc.idle
              popResults := s.popResults ++ [none] }
          else
            some { s with
              threads := threads
              consumer := c
              tailSeen := i
              popPc := PopPc.readSlot }
  | _ => none

/-- Reading the slot moves the item out of it. -/
def popReadSlot (s : ViewSystem cap Client V T) :
    Option (ViewSystem cap Client V T) :=
  match s.popPc with
  | PopPc.readSlot =>
      let s := s.touch Side.consumer
      let place := Place.slot (s.consumer.slot cap)
      let content : Slot T := s.threads.content place
      some { s with
        threads := s.threads.access Side.consumer place content.release
        popPc := PopPc.storeHead content.read }
  | _ => none

def popStoreHead (s : ViewSystem cap Client V T) :
    Option (ViewSystem cap Client V T) :=
  match s.popPc with
  | PopPc.storeHead item =>
      let s := s.touch Side.consumer
      let c := s.consumer.advance
      some { s with
        threads := s.threads.storeRelease Side.consumer Place.head c.cachedHead
        consumer := c
        popPc := PopPc.idle
        popped := s.popped ++ [item]
        popResults := s.popResults ++ [some item] }
  | _ => none

/-!
## Dropping the handles
-/

/-- `Drop for Arc`: a release decrement; the last one goes on to drop the queue. -/
def dropHandle (s : ViewSystem cap Client V T) (side : Side) :
    Option (ViewSystem cap Client V T) :=
  if s.handle side && s.between side then
    let s := s.touch side
    let count : Nat := s.threads.content Place.strong
    some { s with
      threads := s.threads.updateRelease side Place.strong (fun n => n - 1)
      handle := Function.update s.handle side false
      disposal := if count = 1 then DropPc.fence side else s.disposal }
  else none

def dropFence (s : ViewSystem cap Client V T) :
    Option (ViewSystem cap Client V T) :=
  match s.disposal with
  | DropPc.fence side =>
      some { s with
        threads := s.threads.fenceAcquire side
        disposal := DropPc.loadHead side }
  | _ => none

def dropLoadHead (s : ViewSystem cap Client V T) (i : Nat) :
    Option (ViewSystem cap Client V T) :=
  match s.disposal with
  | DropPc.loadHead side =>
      let s := s.touch side
      match s.threads.loadRelaxed side Place.head i with
      | none => none
      | some (head, threads) =>
          some { s with
            threads := threads
            disposal := DropPc.loadTail side head }
  | _ => none

def dropLoadTail (s : ViewSystem cap Client V T) (i : Nat) :
    Option (ViewSystem cap Client V T) :=
  match s.disposal with
  | DropPc.loadTail side head =>
      let s := s.touch side
      match s.threads.loadRelaxed side Place.tail i with
      | none => none
      | some (tail, threads) =>
          let count : BitVec W := tail - head
          some { s with
            threads := threads
            disposal := DropPc.destroy side head 0 count.toNat }
  | _ => none

/-- One iteration of the loop: `assume_init_drop` of the slot. -/
def dropSlot (s : ViewSystem cap Client V T) :
    Option (ViewSystem cap Client V T) :=
  match s.disposal with
  | DropPc.destroy side head k (remaining + 1) =>
      let s := s.touch side
      let i := head + BitVec.ofNat W k
      let place := Place.slot (cap.slotIndex i)
      let content : Slot T := s.threads.content place
      some { s with
        threads := s.threads.access side place content.release
        disposal := DropPc.destroy side head (k + 1) remaining
        destroyed := s.destroyed ++ [content] }
  | _ => none

/-- The slots and the `Arc` are released; all accesses must have come before. -/
def dropFree (s : ViewSystem cap Client V T) :
    Option (ViewSystem cap Client V T) :=
  match s.disposal with
  | DropPc.destroy side _ _ 0 =>
      some { s with
        threads :=
          (s.threads.access side (Place.accesses Side.producer) ()).access side
            (Place.accesses Side.consumer) ()
        disposal := DropPc.freed }
  | _ => none

/-!
## The program around the queue
-/

def clientStore (s : ViewSystem cap Client V T) (side : Side) (x : Client)
    (v : V) : Option (ViewSystem cap Client V T) :=
  if s.between side then
    some { s with
      threads := s.threads.storeRelease side (Place.client x) v }
  else none

def clientLoad (s : ViewSystem cap Client V T) (side : Side) (x : Client)
    (i : Nat) : Option (V × ViewSystem cap Client V T) :=
  if s.between side then
    (s.threads.loadAcquire side (Place.client x) i).map (fun out =>
      (out.1, { s with threads := out.2 }))
  else none

def step (s : ViewSystem cap Client V T) :
    ViewAction Client V T -> Option (ViewSystem cap Client V T)
  | ViewAction.pushCall item => s.pushCall item
  | ViewAction.pushLoadHead i => s.pushLoadHead i
  | ViewAction.pushWriteSlot => s.pushWriteSlot
  | ViewAction.pushStoreTail => s.pushStoreTail
  | ViewAction.popCall => s.popCall
  | ViewAction.popLoadTail i => s.popLoadTail i
  | ViewAction.popReadSlot => s.popReadSlot
  | ViewAction.popStoreHead => s.popStoreHead
  | ViewAction.dropHandle side => s.dropHandle side
  | ViewAction.dropFence => s.dropFence
  | ViewAction.dropLoadHead i => s.dropLoadHead i
  | ViewAction.dropLoadTail i => s.dropLoadTail i
  | ViewAction.dropSlot => s.dropSlot
  | ViewAction.dropFree => s.dropFree
  | ViewAction.clientStore side x v => s.clientStore side x v
  | ViewAction.clientLoad side x i => (s.clientLoad side x i).map Prod.snd

end ViewSystem

def viewMachine {W : Nat} (cap : Capacity W) (T : Type) {Client V : Type}
    [DecidableEq Client] (clients : Client -> V) :
    Machine (ViewSystem cap Client V T) (ViewAction Client V T) where
  start := ViewSystem.new cap T clients
  step := ViewSystem.step

/-!
## What each step does
-/

namespace ViewSystem

variable {W : Nat} {cap : Capacity W} {Client V T : Type}

theorem between_producer {s : ViewSystem cap Client V T}
    (h : s.between Side.producer = true) : s.pushPc = PushPc.idle := by
  cases hpc : s.pushPc with
  | idle =>
      rfl
  | loadHead | writeSlot | storeTail =>
      simp [between, hpc] at h

theorem between_consumer {s : ViewSystem cap Client V T}
    (h : s.between Side.consumer = true) : s.popPc = PopPc.idle := by
  cases hpc : s.popPc with
  | idle =>
      rfl
  | loadTail | readSlot | storeHead =>
      simp [between, hpc] at h

theorem between_disposal {s : ViewSystem cap Client V T} {side : Side}
    (h : s.between side = true) : s.disposal.side? ≠ some side := by
  simp only [between, Bool.and_eq_true] at h
  exact bne_iff_ne.mp h.right

variable [DecidableEq Client] {s s' : ViewSystem cap Client V T}

omit [DecidableEq Client] in
theorem pushCall_inv {item : T} (h : s.pushCall item = some s') :
    s.handle Side.producer = true ∧ s.pushPc = PushPc.idle ∧
      s' = { s with
        threads := s.threads.handOver Side.producer
        pushPc :=
          if s.producer.looksFull cap then PushPc.loadHead item
          else PushPc.writeSlot item } := by
  unfold pushCall at h
  split at h
  · rename_i hhandle
    split at h
    · rename_i hpc
      exact ⟨hhandle, hpc, (Option.some.inj h).symm⟩
    · cases h
  · cases h

theorem pushLoadHead_inv {i : Nat} (h : s.pushLoadHead i = some s') :
    exists item head threads,
      s.pushPc = PushPc.loadHead item ∧
      (s.touch Side.producer).threads.loadAcquire Side.producer Place.head i =
        some (head, threads) ∧
      (({ s.producer with cachedHead := head }.looksFull cap = true ∧
          s' = { s.touch Side.producer with
            threads := threads
            producer := { s.producer with cachedHead := head }
            headSeen := i
            pushPc := PushPc.idle
            pushResults := s.pushResults ++ [some item] }) ∨
        ({ s.producer with cachedHead := head }.looksFull cap = false ∧
          s' = { s.touch Side.producer with
            threads := threads
            producer := { s.producer with cachedHead := head }
            headSeen := i
            pushPc := PushPc.writeSlot item })) := by
  unfold pushLoadHead at h
  split at h
  · rename_i item hpc
    dsimp only at h
    split at h
    · cases h
    · rename_i head threads hload
      refine ⟨item, head, threads, hpc, hload, ?_⟩
      cases hfull : { s.producer with cachedHead := head }.looksFull cap with
      | true =>
          simp only [Producer.stillFull, touch, hfull, if_true] at h
          exact Or.inl ⟨rfl, (Option.some.inj h).symm⟩
      | false =>
          simp only [Producer.stillFull, touch, hfull] at h
          exact Or.inr ⟨rfl, (Option.some.inj h).symm⟩
  · cases h

theorem pushWriteSlot_inv (h : s.pushWriteSlot = some s') :
    exists item, s.pushPc = PushPc.writeSlot item ∧
      s' = { s.touch Side.producer with
        threads := (s.touch Side.producer).threads.access Side.producer
          (Place.slot (s.producer.slot cap)) (Slot.live item)
        pushPc := PushPc.storeTail item } := by
  unfold pushWriteSlot at h
  split at h
  · rename_i item hpc
    exact ⟨item, hpc, (Option.some.inj h).symm⟩
  · cases h

theorem pushStoreTail_inv (h : s.pushStoreTail = some s') :
    exists item, s.pushPc = PushPc.storeTail item ∧
      s' = { s.touch Side.producer with
        threads := (s.touch Side.producer).threads.storeRelease Side.producer
          Place.tail s.producer.advance.cachedTail
        producer := s.producer.advance
        pushPc := PushPc.idle
        accepted := s.accepted ++ [item]
        pushResults := s.pushResults ++ [none] } := by
  unfold pushStoreTail at h
  split at h
  · rename_i item hpc
    exact ⟨item, hpc, (Option.some.inj h).symm⟩
  · cases h

omit [DecidableEq Client] in
theorem popCall_inv (h : s.popCall = some s') :
    s.handle Side.consumer = true ∧ s.popPc = PopPc.idle ∧
      s' = { s with
        threads := s.threads.handOver Side.consumer
        popPc :=
          if s.consumer.looksEmpty then PopPc.loadTail
          else PopPc.readSlot } := by
  unfold popCall at h
  split at h
  · rename_i hhandle
    split at h
    · rename_i hpc
      exact ⟨hhandle, hpc, (Option.some.inj h).symm⟩
    · cases h
  · cases h

theorem popLoadTail_inv {i : Nat} (h : s.popLoadTail i = some s') :
    exists tail threads,
      s.popPc = PopPc.loadTail ∧
      (s.touch Side.consumer).threads.loadAcquire Side.consumer Place.tail i =
        some (tail, threads) ∧
      (({ s.consumer with cachedTail := tail }.looksEmpty = true ∧
          s' = { s.touch Side.consumer with
            threads := threads
            consumer := { s.consumer with cachedTail := tail }
            tailSeen := i
            popPc := PopPc.idle
            popResults := s.popResults ++ [none] }) ∨
        ({ s.consumer with cachedTail := tail }.looksEmpty = false ∧
          s' = { s.touch Side.consumer with
            threads := threads
            consumer := { s.consumer with cachedTail := tail }
            tailSeen := i
            popPc := PopPc.readSlot })) := by
  unfold popLoadTail at h
  split at h
  · rename_i hpc
    dsimp only at h
    split at h
    · cases h
    · rename_i tail threads hload
      refine ⟨tail, threads, hpc, hload, ?_⟩
      cases hempty : { s.consumer with cachedTail := tail }.looksEmpty with
      | true =>
          simp only [Consumer.stillEmpty, touch, hempty, if_true] at h
          exact Or.inl ⟨rfl, (Option.some.inj h).symm⟩
      | false =>
          simp only [Consumer.stillEmpty, touch, hempty] at h
          exact Or.inr ⟨rfl, (Option.some.inj h).symm⟩
  · cases h

def slotContent (s : ViewSystem cap Client V T) (side : Side)
    (j : Fin cap.size) : Slot T :=
  (s.touch side).threads.content (Place.slot j)

theorem popReadSlot_inv (h : s.popReadSlot = some s') :
    s.popPc = PopPc.readSlot ∧
      s' = { s.touch Side.consumer with
        threads := (s.touch Side.consumer).threads.access Side.consumer
          (Place.slot (s.consumer.slot cap))
          (s.slotContent Side.consumer (s.consumer.slot cap)).release
        popPc := PopPc.storeHead
          (s.slotContent Side.consumer (s.consumer.slot cap)).read } := by
  unfold popReadSlot at h
  split at h
  · rename_i hpc
    exact ⟨hpc, (Option.some.inj h).symm⟩
  · cases h

theorem popStoreHead_inv (h : s.popStoreHead = some s') :
    exists item, s.popPc = PopPc.storeHead item ∧
      s' = { s.touch Side.consumer with
        threads := (s.touch Side.consumer).threads.storeRelease Side.consumer
          Place.head s.consumer.advance.cachedHead
        consumer := s.consumer.advance
        popPc := PopPc.idle
        popped := s.popped ++ [item]
        popResults := s.popResults ++ [some item] } := by
  unfold popStoreHead at h
  split at h
  · rename_i item hpc
    exact ⟨item, hpc, (Option.some.inj h).symm⟩
  · cases h

def strongCount (s : ViewSystem cap Client V T) (side : Side) : Nat :=
  (s.touch side).threads.content Place.strong

theorem dropHandle_inv {side : Side} (h : s.dropHandle side = some s') :
    s.handle side = true ∧ s.between side = true ∧
      s' = { s.touch side with
        threads := (s.touch side).threads.updateRelease side Place.strong
          (fun n => n - 1)
        handle := Function.update s.handle side false
        disposal :=
          if s.strongCount side = 1 then DropPc.fence side
          else s.disposal } := by
  unfold dropHandle at h
  split at h
  · rename_i hboth
    rcases Bool.and_eq_true_iff.mp hboth with ⟨hhandle, hbetween⟩
    exact ⟨hhandle, hbetween, (Option.some.inj h).symm⟩
  · cases h

omit [DecidableEq Client] in
theorem dropFence_inv (h : s.dropFence = some s') :
    exists side, s.disposal = DropPc.fence side ∧
      s' = { s with
        threads := s.threads.fenceAcquire side
        disposal := DropPc.loadHead side } := by
  unfold dropFence at h
  split at h
  · rename_i side hdisposal
    exact ⟨side, hdisposal, (Option.some.inj h).symm⟩
  · cases h

theorem dropLoadHead_inv {i : Nat} (h : s.dropLoadHead i = some s') :
    exists side head threads, s.disposal = DropPc.loadHead side ∧
      (s.touch side).threads.loadRelaxed side Place.head i =
        some (head, threads) ∧
      s' = { s.touch side with
        threads := threads
        disposal := DropPc.loadTail side head } := by
  unfold dropLoadHead at h
  split at h
  · rename_i side hdisposal
    dsimp only at h
    split at h
    · cases h
    · rename_i head threads hload
      exact ⟨side, head, threads, hdisposal, hload,
        (Option.some.inj h).symm⟩
  · cases h

theorem dropLoadTail_inv {i : Nat} (h : s.dropLoadTail i = some s') :
    exists (side : Side) (head tail : BitVec W)
      (threads : Threads Side (Place cap Client) (Place.Val V T)),
      s.disposal = DropPc.loadTail side head ∧
      (s.touch side).threads.loadRelaxed side Place.tail i =
        some (tail, threads) ∧
      s' = { s.touch side with
        threads := threads
        disposal := DropPc.destroy side head 0 (tail - head).toNat } := by
  unfold dropLoadTail at h
  split at h
  · rename_i side head hdisposal
    dsimp only at h
    split at h
    · cases h
    · rename_i tail threads hload
      exact ⟨side, head, tail, threads, hdisposal, hload,
        (Option.some.inj h).symm⟩
  · cases h

theorem dropSlot_inv (h : s.dropSlot = some s') :
    exists side head k remaining,
      s.disposal = DropPc.destroy side head k (remaining + 1) ∧
      s' = { s.touch side with
        threads := (s.touch side).threads.access side
          (Place.slot (cap.slotIndex (head + BitVec.ofNat W k)))
          (s.slotContent side
            (cap.slotIndex (head + BitVec.ofNat W k))).release
        disposal := DropPc.destroy side head (k + 1) remaining
        destroyed := s.destroyed ++
          [s.slotContent side (cap.slotIndex (head + BitVec.ofNat W k))] } := by
  unfold dropSlot at h
  split at h
  · rename_i side head k remaining hdisposal
    exact ⟨side, head, k, remaining, hdisposal, (Option.some.inj h).symm⟩
  · cases h

theorem dropFree_inv (h : s.dropFree = some s') :
    exists side head k, s.disposal = DropPc.destroy side head k 0 ∧
      s' = { s with
        threads :=
          (s.threads.access side (Place.accesses Side.producer) ()).access side
            (Place.accesses Side.consumer) ()
        disposal := DropPc.freed } := by
  unfold dropFree at h
  split at h
  · rename_i side head k hdisposal
    exact ⟨side, head, k, hdisposal, (Option.some.inj h).symm⟩
  · cases h

theorem clientStore_inv {side : Side} {x : Client} {v : V}
    (h : s.clientStore side x v = some s') :
    s.between side = true ∧
      s' = { s with
        threads := s.threads.storeRelease side (Place.client x) v } := by
  unfold clientStore at h
  split at h
  · rename_i hbetween
    exact ⟨hbetween, (Option.some.inj h).symm⟩
  · cases h

theorem clientLoad_inv {side : Side} {x : Client} {i : Nat} {v : V}
    (h : s.clientLoad side x i = some (v, s')) :
    exists threads, s.between side = true ∧
      s.threads.loadAcquire side (Place.client x) i = some (v, threads) ∧
      s' = { s with threads := threads } := by
  unfold clientLoad at h
  split at h
  · rename_i hbetween
    rcases Option.map_eq_some_iff.mp h with ⟨⟨v', threads⟩, hload, hout⟩
    cases hout
    exact ⟨threads, hbetween, hload, rfl⟩
  · cases h

end ViewSystem
end Spsc
end LowLatency
