import LowLatency.Foundation.Machine
import LowLatency.Foundation.StoreHistory
import LowLatency.Foundation.Linearizability
import LowLatency.Spsc.Producer
import LowLatency.Spsc.Consumer

/-!
# Interleaved producer and consumer

One producer and one consumer share the queue.  Every access to shared memory
is a step of its own: the optional load of the other side's counter, the access
to the slot, and the store of the own counter.  A load of a counter may return
any stored value that is not older than the one this side saw last.
-/

namespace LowLatency
namespace Spsc

open Foundation
open Foundation.Linearizability

inductive Side where
  | producer
  | consumer
deriving DecidableEq, Repr

inductive QueueOp (T : Type _) where
  | push (item : T)
  | pop
deriving DecidableEq, Repr

inductive QueueRes (T : Type _) where
  | pushed (back : Option T)
  | popped (item : Option (Option T))
deriving DecidableEq, Repr

/-- Where `push` stands; the item travels with the call until it is stored. -/
inductive PushPc (T : Type _) where
  | idle
  | loadHead (item : T)
  | writeSlot (item : T)
  | storeTail (item : T)
deriving DecidableEq, Repr

/-- Where `pop` stands; `storeHead` carries the bits that were read. -/
inductive PopPc (T : Type _) where
  | idle
  | loadTail
  | readSlot
  | storeHead (item : Option T)
deriving DecidableEq, Repr

/-- A finished `push`: its item, its result, and its stores to `tail` or a slot. -/
structure PushReturn (T : Type _) where
  item : T
  back : Option T
  stores : Nat
deriving DecidableEq, Repr

/-- A finished `pop`: its result, and its stores to `head` or accesses to a slot. -/
structure PopReturn (T : Type _) where
  item : Option (Option T)
  stores : Nat
deriving DecidableEq, Repr

/-!
## State

The log collects what happened; no step reads it.
-/

structure Log {W : Nat} (cap : Capacity W) (T : Type _) where
  accepted : List T := []
  popped : List (Option T) := []
  pushReturns : List (PushReturn T) := []
  popReturns : List (PopReturn T) := []
  /-- What each run of `Queue::drop` destroyed. -/
  drops : List (List (Slot T)) := []
  pushStores : Nat := 0
  popStores : Nat := 0
  /-- All stores of the producer so far; orders slot writes and `tail` stores. -/
  storeClock : Nat := 0
  writtenAt : Fin cap.size -> Nat := fun _ => 0
  tailStoredAt : List Nat := []
  trace : List (Event Side (QueueOp T) (QueueRes T)) := []

structure System {W : Nat} (cap : Capacity W) (T : Type _) where
  head : StoreHistory (BitVec W)
  tail : StoreHistory (BitVec W)
  slots : Fin cap.size -> Slot T
  producer : Producer W
  pushPc : PushPc T
  /-- Index of the store to `head` that the producer saw last. -/
  headSeen : Nat
  consumer : Consumer W
  popPc : PopPc T
  /-- Index of the store to `tail` that the consumer saw last. -/
  tailSeen : Nat
  producerHandle : Bool
  consumerHandle : Bool
  log : Log cap T

inductive Action (T : Type _) where
  | pushCall (item : T)
  | pushLoadHead (i : Nat)
  | pushWriteSlot
  | pushStoreTail
  | popCall
  | popLoadTail (i : Nat)
  | popReadSlot
  | popStoreHead
  | dropProducer
  | dropConsumer
deriving DecidableEq, Repr

namespace System

variable {W : Nat} {cap : Capacity W} {T : Type _}

def new (cap : Capacity W) (T : Type _) : System cap T where
  head := ⟨0#W, []⟩
  tail := ⟨0#W, []⟩
  slots := (Queue.new cap T).slots
  producer := Producer.new W
  pushPc := PushPc.idle
  headSeen := 0
  consumer := Consumer.new W
  popPc := PopPc.idle
  tailSeen := 0
  producerHandle := true
  consumerHandle := true
  log := {}

def queue (s : System cap T) : Queue cap T where
  head := s.head.current
  tail := s.tail.current
  slots := s.slots

/-!
## Steps of the producer
-/

def pushCall (s : System cap T) (item : T) : Option (System cap T) :=
  if s.producerHandle then
    match s.pushPc with
    | PushPc.idle =>
        some { s with
          pushPc :=
            if s.producer.looksFull cap then PushPc.loadHead item
            else PushPc.writeSlot item
          log := { s.log with
            pushStores := 0
            trace := s.log.trace ++
              [Event.call Side.producer (QueueOp.push item)] } }
    | _ => none
  else none

/-- The load of `head` in `still_full`, and `return Some(item)` when still full. -/
def pushLoadHead (s : System cap T) (i : Nat) : Option (System cap T) :=
  match s.pushPc, s.head.load? s.headSeen i with
  | PushPc.loadHead item, some head =>
      let (full, p) := s.producer.stillFull cap head
      if full then
        some { s with
          producer := p
          headSeen := i
          pushPc := PushPc.idle
          log := { s.log with
            pushReturns := s.log.pushReturns ++
              [⟨item, some item, s.log.pushStores⟩]
            trace := s.log.trace ++
              [Event.ret Side.producer (QueueRes.pushed (some item))] } }
      else
        some { s with
          producer := p
          headSeen := i
          pushPc := PushPc.writeSlot item }
  | _, _ => none

def pushWriteSlot (s : System cap T) : Option (System cap T) :=
  match s.pushPc with
  | PushPc.writeSlot item =>
      let slot := s.producer.slot cap
      some { s with
        slots := Function.update s.slots slot (Slot.live item)
        pushPc := PushPc.storeTail item
        log := { s.log with
          pushStores := s.log.pushStores + 1
          storeClock := s.log.storeClock + 1
          writtenAt :=
            Function.update s.log.writtenAt slot s.log.storeClock } }
  | _ => none

def pushStoreTail (s : System cap T) : Option (System cap T) :=
  match s.pushPc with
  | PushPc.storeTail item =>
      let p := s.producer.advance
      some { s with
        producer := p
        tail := s.tail.store p.cachedTail
        pushPc := PushPc.idle
        log := { s.log with
          accepted := s.log.accepted ++ [item]
          pushStores := s.log.pushStores + 1
          storeClock := s.log.storeClock + 1
          tailStoredAt := s.log.tailStoredAt ++ [s.log.storeClock]
          pushReturns := s.log.pushReturns ++
            [⟨item, none, s.log.pushStores + 1⟩]
          trace := s.log.trace ++
            [Event.ret Side.producer (QueueRes.pushed none)] } }
  | _ => none

/-!
## Steps of the consumer
-/

def popCall (s : System cap T) : Option (System cap T) :=
  if s.consumerHandle then
    match s.popPc with
    | PopPc.idle =>
        some { s with
          popPc :=
            if s.consumer.looksEmpty then PopPc.loadTail else PopPc.readSlot
          log := { s.log with
            popStores := 0
            trace := s.log.trace ++ [Event.call Side.consumer QueueOp.pop] } }
    | _ => none
  else none

/-- The load of `tail` in `still_empty`, and `return None` when still empty. -/
def popLoadTail (s : System cap T) (i : Nat) : Option (System cap T) :=
  match s.popPc, s.tail.load? s.tailSeen i with
  | PopPc.loadTail, some tail =>
      let (empty, c) := s.consumer.stillEmpty tail
      if empty then
        some { s with
          consumer := c
          tailSeen := i
          popPc := PopPc.idle
          log := { s.log with
            popReturns := s.log.popReturns ++ [⟨none, s.log.popStores⟩]
            trace := s.log.trace ++
              [Event.ret Side.consumer (QueueRes.popped none)] } }
      else
        some { s with
          consumer := c
          tailSeen := i
          popPc := PopPc.readSlot }
  | _, _ => none

def popReadSlot (s : System cap T) : Option (System cap T) :=
  match s.popPc with
  | PopPc.readSlot =>
      let slot := s.consumer.slot cap
      some { s with
        slots := Function.update s.slots slot (s.slots slot).release
        popPc := PopPc.storeHead (s.slots slot).read
        log := { s.log with popStores := s.log.popStores + 1 } }
  | _ => none

def popStoreHead (s : System cap T) : Option (System cap T) :=
  match s.popPc with
  | PopPc.storeHead item =>
      let c := s.consumer.advance
      some { s with
        consumer := c
        head := s.head.store c.cachedHead
        popPc := PopPc.idle
        log := { s.log with
          popped := s.log.popped ++ [item]
          popStores := s.log.popStores + 1
          popReturns := s.log.popReturns ++
            [⟨some item, s.log.popStores + 1⟩]
          trace := s.log.trace ++
            [Event.ret Side.consumer (QueueRes.popped (some item))] } }
  | _ => none

/-!
## Dropping the handles

A handle is dropped between its calls.  The second drop releases the last
reference to the queue and runs `Queue::drop`.
-/

def runDrop (s : System cap T) : System cap T :=
  { s with log := { s.log with drops := s.log.drops ++ [s.queue.drop] } }

def dropProducer (s : System cap T) : Option (System cap T) :=
  match s.producerHandle, s.pushPc with
  | true, PushPc.idle =>
      let s' := { s with producerHandle := false }
      some (if s.consumerHandle then s' else s'.runDrop)
  | _, _ => none

def dropConsumer (s : System cap T) : Option (System cap T) :=
  match s.consumerHandle, s.popPc with
  | true, PopPc.idle =>
      let s' := { s with consumerHandle := false }
      some (if s.producerHandle then s' else s'.runDrop)
  | _, _ => none

def step (s : System cap T) : Action T -> Option (System cap T)
  | Action.pushCall item => s.pushCall item
  | Action.pushLoadHead i => s.pushLoadHead i
  | Action.pushWriteSlot => s.pushWriteSlot
  | Action.pushStoreTail => s.pushStoreTail
  | Action.popCall => s.popCall
  | Action.popLoadTail i => s.popLoadTail i
  | Action.popReadSlot => s.popReadSlot
  | Action.popStoreHead => s.popStoreHead
  | Action.dropProducer => s.dropProducer
  | Action.dropConsumer => s.dropConsumer

end System

def machine {W : Nat} (cap : Capacity W) (T : Type _) :
    Machine (System cap T) (Action T) where
  start := System.new cap T
  step := System.step

end Spsc
end LowLatency
