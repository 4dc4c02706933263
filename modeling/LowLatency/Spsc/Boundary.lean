import LowLatency.Spsc.Checked

/-!
# A run up to the word boundary

In a queue of one slot every item is pushed and popped before the next one.
After `2 ^ W - 1` of these rounds the next `push` panics in a build with
overflow checks.
-/

namespace LowLatency
namespace Spsc

open Foundation
open Foundation.Linearizability

namespace CheckedSystem

variable {W : Nat} {cap : Capacity W} {T : Type _} {s s' : System cap T}

/-!
## Rounds
-/

/-- The `k`-th item of a queue of one slot, pushed and popped. -/
def round (item : T) (k : Nat) : List (Action T) :=
  [Action.pushCall item] ++
    (if k = 0 then [] else [Action.pushLoadHead k]) ++
    [Action.pushWriteSlot, Action.pushStoreTail] ++
    [Action.popCall, Action.popLoadTail (k + 1), Action.popReadSlot,
      Action.popStoreHead]

def rounds (item : T) : Nat -> List (Action T)
  | 0 => []
  | n + 1 => rounds item n ++ round item n

structure Rounds (item : T) (n : Nat) (s : System cap T) : Prop where
  counters : System.Counters s
  pushPc : s.pushPc = PushPc.idle
  popPc : s.popPc = PopPc.idle
  producerHandle : s.producerHandle = true
  consumerHandle : s.consumerHandle = true
  drops : s.log.drops = []
  headSeen : s.headSeen = n - 1
  tailSeen : s.tailSeen = n
  accepted : s.log.accepted = List.replicate n item
  popped : s.log.popped.length = n

theorem pushLoadHead_of_room {x : T} {i : Nat} {head : BitVec W}
    (hpc : s.pushPc = PushPc.loadHead x)
    (hload : s.head.load? s.headSeen i = some head)
    (hroom : { s.producer with cachedHead := head }.looksFull cap = false) :
    (machine cap T).step s (Action.pushLoadHead i) = some { s with
      producer := { s.producer with cachedHead := head }
      headSeen := i
      pushPc := PushPc.writeSlot x } := by
  simp [machine, System.step, System.pushLoadHead, hpc, hload,
    Producer.stillFull, hroom]

theorem Rounds.push_check {item x : T} {n : Nat} (hr : Rounds item n s)
    (hone : cap.size = 1) :
    exists s', (machine cap T).runFrom s ([Action.pushCall x] ++
        (if n = 0 then [] else [Action.pushLoadHead n])) = some s' ∧
      s'.pushPc = PushPc.writeSlot x ∧ s'.headSeen = n ∧
      s'.popPc = PopPc.idle ∧ s'.producerHandle = true ∧
      s'.consumerHandle = true ∧ s'.tailSeen = n ∧
      s'.log.drops = [] ∧ s'.log.accepted = s.log.accepted ∧
      s'.log.popped = s.log.popped := by
  have hlength : s.log.accepted.length = n := by simp [hr.accepted]
  have hcached := hr.counters.looksFull_cached
  rw [hlength, hr.headSeen, hone] at hcached
  have hcall : (machine cap T).step s (Action.pushCall x) = some { s with
      pushPc :=
        if s.producer.looksFull cap then PushPc.loadHead x
        else PushPc.writeSlot x
      log := { s.log with
        pushStores := 0
        trace := s.log.trace ++
          [Event.call Side.producer (QueueOp.push x)] } } := by
    simp [machine, System.step, System.pushCall, hr.producerHandle,
      hr.pushPc]
  rcases Nat.eq_zero_or_pos n with rfl | hpos
  · have hfull : s.producer.looksFull cap = false := by
      rw [Bool.eq_false_iff]
      intro hfull
      have hzero := hcached.mp hfull
      lia
    rw [hfull] at hcall
    refine ⟨_, Machine.runFrom_cons_of_step [] hcall,
      rfl, hr.headSeen, hr.popPc, hr.producerHandle, hr.consumerHandle,
      hr.tailSeen, hr.drops, rfl, rfl⟩
  · have hfull : s.producer.looksFull cap = true := hcached.mpr (by lia)
    rw [hfull, if_pos rfl] at hcall
    have hload : s.head.load? s.headSeen n = some (BitVec.ofNat W n) := by
      apply StoreHistory.load?_eq_some.mpr
      constructor
      · rw [hr.headSeen]
        exact Nat.sub_le n 1
      · apply hr.counters.headCounts
        rw [hr.counters.headIndex, hr.popped]
    have hroom : { s.producer with
        cachedHead := BitVec.ofNat W n }.looksFull cap = false := by
      rw [Bool.eq_false_iff]
      intro hstill
      have heq := (hr.counters.looksFull_iff rfl (by rw [hr.headSeen]; lia)
        (Nat.le_of_eq hr.popped.symm)).mp hstill
      lia
    have hcheck := pushLoadHead_of_room (s := { s with
      pushPc := PushPc.loadHead x
      log := { s.log with
        pushStores := 0
        trace := s.log.trace ++
          [Event.call Side.producer (QueueOp.push x)] } }) rfl hload hroom
    rw [if_neg (Nat.ne_of_gt hpos)]
    refine ⟨_, (Machine.runFrom_cons_of_step _ hcall).trans
        (Machine.runFrom_cons_of_step [] hcheck), rfl, rfl, hr.popPc,
      hr.producerHandle, hr.consumerHandle, hr.tailSeen, hr.drops, rfl, rfl⟩

theorem push_stores {x : T} (hpc : s.pushPc = PushPc.writeSlot x) :
    exists s', (machine cap T).runFrom s
        [Action.pushWriteSlot, Action.pushStoreTail] = some s' ∧
      s'.pushPc = PushPc.idle ∧ s'.headSeen = s.headSeen ∧
      s'.popPc = s.popPc ∧ s'.producerHandle = s.producerHandle ∧
      s'.consumerHandle = s.consumerHandle ∧ s'.tailSeen = s.tailSeen ∧
      s'.log.drops = s.log.drops ∧
      s'.log.accepted = s.log.accepted ++ [x] ∧
      s'.log.popped = s.log.popped := by
  simp [Machine.runFrom, machine, System.step, System.pushWriteSlot,
    System.pushStoreTail, hpc]

theorem pop_stores {n : Nat} (hc : System.Counters s)
    (hpc : s.popPc = PopPc.idle) (hhandle : s.consumerHandle = true)
    (hseen : s.tailSeen = n) (hpopped : s.log.popped.length = n)
    (haccepted : s.log.accepted.length = n + 1) :
    exists s', (machine cap T).runFrom s
        [Action.popCall, Action.popLoadTail (n + 1), Action.popReadSlot,
          Action.popStoreHead] = some s' ∧
      s'.popPc = PopPc.idle ∧ s'.tailSeen = n + 1 ∧
      s'.pushPc = s.pushPc ∧ s'.producerHandle = s.producerHandle ∧
      s'.consumerHandle = true ∧ s'.headSeen = s.headSeen ∧
      s'.log.drops = s.log.drops ∧
      s'.log.accepted = s.log.accepted ∧
      s'.log.popped.length = n + 1 := by
  have hempty : s.consumer.looksEmpty = true :=
    hc.looksEmpty_cached.mpr (hpopped.trans hseen.symm)
  have hload : s.tail.load? n (n + 1) = some (BitVec.ofNat W (n + 1)) := by
    apply StoreHistory.load?_eq_some.mpr
    constructor
    · exact Nat.le_succ n
    · apply hc.tailCounts
      rw [hc.tailIndex, haccepted]
  have hitem : { s.consumer with
      cachedTail := BitVec.ofNat W (n + 1) }.looksEmpty = false := by
    rw [Bool.eq_false_iff]
    intro hstill
    have heq := (hc.looksEmpty_iff rfl (by rw [hseen]; exact Nat.le_succ n)
      (Nat.le_of_eq haccepted.symm)).mp hstill
    lia
  simp [Machine.runFrom, machine, System.step, System.popCall,
    System.popLoadTail, System.popReadSlot, System.popStoreHead, hpc, hhandle,
    hempty, hseen, hload, Consumer.stillEmpty, hitem, hpopped]

theorem Rounds.next {item : T} {n : Nat} (hr : Rounds item n s)
    (hone : cap.size = 1) :
    exists s', (machine cap T).runFrom s (round item n) = some s' ∧
      Rounds item (n + 1) s' := by
  rcases hr.push_check (x := item) hone with ⟨s₁, hrun₁, hpc₁, hhead₁, hpop₁,
    hproducer₁, hconsumer₁, htail₁, hdrops₁, haccepted₁, hpopped₁⟩
  rcases push_stores hpc₁ with ⟨s₂, hrun₂, hpc₂, hhead₂, hpop₂, hproducer₂,
    hconsumer₂, htail₂, hdrops₂, haccepted₂, hpopped₂⟩
  have hrun := Machine.runFrom_trans hrun₁ hrun₂
  have hc₂ := hr.counters.runFrom hrun
  have haccepted : s₂.log.accepted = List.replicate (n + 1) item := by
    rw [haccepted₂, haccepted₁, hr.accepted, ← List.replicate_succ']
  rcases pop_stores (n := n) hc₂ (hpop₂.trans hpop₁)
    (hconsumer₂.trans hconsumer₁) (htail₂.trans htail₁)
    (by rw [hpopped₂, hpopped₁, hr.popped]) (by simp [haccepted]) with
    ⟨s₃, hrun₃, hpc₃, htail₃, hpush₃, hproducer₃, hconsumer₃, hhead₃, hdrops₃,
      haccepted₃, hpopped₃⟩
  have hall := Machine.runFrom_trans hrun hrun₃
  refine ⟨s₃, hall, ?_⟩
  constructor
  · exact hr.counters.runFrom hall
  · exact hpush₃.trans hpc₂
  · exact hpc₃
  · exact hproducer₃.trans (hproducer₂.trans hproducer₁)
  · exact hconsumer₃
  · exact hdrops₃.trans (hdrops₂.trans hdrops₁)
  · exact hhead₃.trans (hhead₂.trans hhead₁)
  · exact htail₃
  · exact haccepted₃.trans haccepted
  · exact hpopped₃

theorem Rounds.start (item : T) : Rounds item 0 (System.new cap T) where
  counters := System.Counters.new cap T
  pushPc := rfl
  popPc := rfl
  producerHandle := rfl
  consumerHandle := rfl
  drops := rfl
  headSeen := rfl
  tailSeen := rfl
  accepted := rfl
  popped := rfl

theorem rounds_run (item : T) (hone : cap.size = 1) (n : Nat) :
    exists s, (machine cap T).run (rounds item n) = some s ∧
      Rounds item n s := by
  induction n with
  | zero => exact ⟨_, rfl, Rounds.start item⟩
  | succ n ih =>
      rcases ih with ⟨s, hrun, hr⟩
      rcases hr.next hone with ⟨s', hround, hr'⟩
      exact ⟨s', Machine.runFrom_trans hrun hround, hr'⟩

/-- What follows the last round: a `push`, and the drops of both handles. -/
def lastPush (x : T) (n : Nat) : List (Action T) :=
  [Action.pushCall x, Action.pushLoadHead n, Action.pushWriteSlot] ++
    [Action.pushStoreTail] ++ [Action.dropProducer, Action.dropConsumer]

theorem push_writes {x : T} (hpc : s.pushPc = PushPc.writeSlot x) :
    exists s', (machine cap T).runFrom s [Action.pushWriteSlot] = some s' ∧
      s'.pushPc = PushPc.storeTail x ∧ s'.popPc = s.popPc ∧
      s'.producerHandle = s.producerHandle ∧
      s'.consumerHandle = s.consumerHandle ∧
      s'.log.drops = s.log.drops ∧ s'.log.accepted = s.log.accepted ∧
      s'.log.popped = s.log.popped ∧
      s'.slots (s.producer.slot cap) = Slot.live x := by
  simp [Machine.runFrom, machine, System.step, System.pushWriteSlot, hpc]

theorem drops_run (panics : List (Panic T)) (hc : System.Counters s)
    (hpush : s.pushPc = PushPc.idle) (hpop : s.popPc = PopPc.idle)
    (hproducer : s.producerHandle = true)
    (hconsumer : s.consumerHandle = true)
    (hempty : s.log.popped.length = s.log.accepted.length) :
    exists c, (checkedMachine cap T).runFrom ⟨s, panics⟩
        [Action.dropProducer, Action.dropConsumer] = some c ∧
      c.panics = panics ∧ c.system.log.accepted = s.log.accepted ∧
      c.system.slots = s.slots ∧
      c.system.log.drops = s.log.drops ++ [[]] := by
  have hdrop : Queue.drop { s.queue with
      head := s.head.current, tail := s.tail.current } = [] := by
    rw [Queue.drop, hc.head_current, hc.tail_current, hempty, BitVec.sub_self]
    rfl
  simp [Machine.runFrom, checkedMachine, step, System.step,
    System.dropProducer, System.dropConsumer, System.runDrop, hpush, hpop,
    hproducer, hconsumer]
  exact hdrop

theorem lastPush_run (item x : T) (hone : cap.size = 1) {n : Nat}
    (hpos : 0 < n) (hlast : n + 1 = 2 ^ W) :
    exists c, (checkedMachine cap T).run (rounds item n ++ lastPush x n) =
        some c ∧
      c.panics = [Panic.push x] ∧
      c.system.log.accepted = List.replicate n item ∧
      c.system.slots (cap.slotOf n) = Slot.live x ∧
      c.system.log.drops = [[]] := by
  rcases rounds_run item hone n with ⟨s, hrounds, hr⟩
  rcases hr.push_check (x := x) hone with ⟨s₁, hrun₁, hpc₁, _, hpop₁,
    hproducer₁, hconsumer₁, _, hdrops₁, haccepted₁, hpopped₁⟩
  rcases push_writes hpc₁ with ⟨s₂, hrun₂, hpc₂, hpop₂, hproducer₂,
    hconsumer₂, hdrops₂, haccepted₂, hpopped₂, hslot₂⟩
  have hrun := Machine.runFrom_trans hrounds
    (Machine.runFrom_trans hrun₁ hrun₂)
  have hc₁ := hr.counters.runFrom hrun₁
  have hc₂ := hc₁.runFrom hrun₂
  have hn₁ : s₁.log.accepted.length = n := by simp [haccepted₁, hr.accepted]
  have hn₂ : s₂.log.accepted.length = n := by rw [haccepted₂, hn₁]
  rw [hc₁.producer_slot, hn₁] at hslot₂
  -- The wrapping queue has accepted `n` items only, so nothing has panicked.
  have hchecked := run_of_few hrun (by lia)
  have hpanic := push_panics [] hpc₂
    (push_overflows hc₂ (by rw [hn₂, hlast]))
  rcases drops_run (s := { s₂ with pushPc := PushPc.idle })
    [Panic.push x] { hc₂ with pushRoom := nofun } rfl
    (hpop₂.trans hpop₁) (hproducer₂.trans hproducer₁)
    (hconsumer₂.trans hconsumer₁)
    (by rw [hpopped₂, hpopped₁, hr.popped, hn₂]) with
    ⟨c, hdropped, hpanics, haccepted, hslots, hdrops⟩
  refine ⟨c, ?_, hpanics, ?_, ?_, ?_⟩
  · have hend := Machine.runFrom_trans hchecked
      ((Machine.runFrom_cons_of_step _ hpanic).trans hdropped)
    rw [if_neg (Nat.ne_of_gt hpos), List.append_assoc] at hend
    exact hend
  · rw [haccepted, haccepted₂, haccepted₁, hr.accepted]
  · rw [hslots]
    exact hslot₂
  · rw [hdrops, hdrops₂, hdrops₁]
    rfl

/--
After `2 ^ 64 - 1` items the next `push` writes item 7 and panics.  The item is
not accepted, stays in its slot, and is not found by `Queue::drop`.
-/
theorem push_panics_at_boundary :
    exists c, (checkedMachine (⟨1#64, 0, rfl⟩ : Capacity 64) Nat).run
        (rounds 5 (2 ^ 64 - 1) ++ lastPush 7 (2 ^ 64 - 1)) = some c ∧
      c.panics = [Panic.push 7] ∧
      c.system.log.accepted = List.replicate (2 ^ 64 - 1) 5 ∧
      c.system.slots ((⟨1#64, 0, rfl⟩ : Capacity 64).slotOf (2 ^ 64 - 1)) =
        Slot.live 7 ∧
      c.system.log.drops = [[]] := by
  apply lastPush_run
  · rfl
  · exact Nat.sub_pos_of_lt (Nat.one_lt_two_pow (by lia))
  · exact Nat.sub_add_cancel (Nat.one_le_two_pow)

end CheckedSystem
end Spsc
end LowLatency
