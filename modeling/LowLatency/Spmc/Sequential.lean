import LowLatency.Spmc.AppendLog
import LowLatency.Spmc.System

/-!
# Whole operations as runs of steps

A `publish` or a `try_read` that no other party interrupts does in its steps
what the whole operation does.  What is known of whole operations is therefore
known of those runs of the step machine in which no two calls overlap.
-/

namespace LowLatency
namespace Spmc

open Foundation

namespace System

variable {W : Nat} {cap : Capacity W} {m : Nat} {Word : Type _}
variable {s : System cap m Word}

/-!
## Enabled steps
-/

theorem step_publishCall (hpc : s.publishPc = PublishPc.idle)
    (value : Payload m Word) :
    s.step (Action.publishCall value) = some { s with
      publishPc := PublishPc.storeOdd s.queue.writeCursor value
      published := s.published ++ [value] } := by
  rw [step, publishCall, hpc]

theorem step_publishStoreOdd {wPos : BitVec W} {value : Payload m Word}
    (hpc : s.publishPc = PublishPc.storeOdd wPos value) :
    s.step Action.publishStoreOdd = some { s with
      queue := s.queue.storeSeq (cap.slotIndex wPos) (wPos * 2#W + 1#W)
      publishPc := PublishPc.writeData wPos value (fun _ => false) } := by
  rw [step, publishStoreOdd, hpc]

theorem step_publishWriteWord {wPos : BitVec W} {value : Payload m Word}
    {written : Fin m -> Bool} {i : Fin m}
    (hpc : s.publishPc = PublishPc.writeData wPos value written)
    (hi : written i = false) :
    s.step (Action.publishWriteWord i) = some { s with
      queue := s.queue.writeWord (cap.slotIndex wPos) i (value i)
      publishPc :=
        PublishPc.writeData wPos value (Function.update written i true) } := by
  simp only [step, publishWriteWord, hpc, hi, Bool.false_eq_true, if_false]

theorem step_publishStoreEven {wPos : BitVec W} {value : Payload m Word}
    {written : Fin m -> Bool}
    (hpc : s.publishPc = PublishPc.writeData wPos value written)
    (hall : forall i, written i = true) :
    s.step Action.publishStoreEven = some { s with
      queue := s.queue.storeSeq (cap.slotIndex wPos) (wPos * 2#W + 2#W)
      publishPc := PublishPc.storeCursor wPos } := by
  simp only [step, publishStoreEven, hpc]
  rw [if_pos hall]

theorem step_publishStoreCursor {wPos : BitVec W}
    (hpc : s.publishPc = PublishPc.storeCursor wPos) :
    s.step Action.publishStoreCursor = some { s with
      queue := { s.queue with writeCursor := wPos + 1#W }
      publishPc := PublishPc.idle
      completed := s.completed + 1 } := by
  rw [step, publishStoreCursor, hpc]

theorem writeWord_writeData (q : Queue cap m Word) (slot : Fin cap.size)
    (w : Fin m) (word : Word) (value : Payload m Word) :
    (q.writeWord slot w word).writeData slot value =
      q.writeData slot value := by
  simp only [Queue.writeWord, Queue.writeData, Function.update_self,
    Function.update_idem]

structure Returned (s : System cap m Word) (r r' : Reader W m Word)
    (result : ReadResult W m Word) (state : ConsumerState W) : Prop where
  thread : r'.thread = ⟨state, ReadPc.idle⟩
  log : r'.log = r.log ++ [⟨r.position, result, s.progress⟩]

section Steps

variable {r : Reader W m Word}

theorem readStep_loadSeq {thread : ReadThread W m Word}
    (h : r.thread.gotSeq (s.queue.slots (r.thread.state.slot cap)).seq =
      some (thread, none)) :
    exists stats, s.readStep r ReadAction.loadSeq =
      some { r with thread := thread, stats := stats } := by
  refine ⟨r.stats.countSeq r.thread.pc
    (s.queue.slots (r.thread.state.slot cap)).seq, ?_⟩
  rw [readStep, Reader.gotSeq, h]
  rfl

theorem readStep_accept {copied : Fin m -> Option Word} {v : Payload m Word}
    (hpc : r.thread.pc = ReadPc.readData
      (s.queue.slots (r.thread.state.slot cap)).seq copied)
    (hcollect : collect copied = some v) :
    exists r', s.readStep r ReadAction.loadSeq = some r' ∧
      Returned s r r' (ReadResult.value v) r.thread.state.advance := by
  have hgot : r.thread.gotSeq (s.queue.slots (r.thread.state.slot cap)).seq =
      some (⟨r.thread.state.advance, ReadPc.idle⟩,
        some (ReadResult.value v)) := by
    simp only [ReadThread.gotSeq, hpc, hcollect]
    rw [if_pos (beq_self_eq_true _)]
  have hstep : s.readStep r ReadAction.loadSeq = some
      { r.resume s.progress r.cachedPosition
          (⟨r.thread.state.advance, ReadPc.idle⟩,
            some (ReadResult.value v)) with
        stats := r.stats.countSeq r.thread.pc
          (s.queue.slots (r.thread.state.slot cap)).seq } := by
    rw [readStep, Reader.gotSeq, hgot]
    rfl
  exact ⟨_, hstep, rfl, rfl⟩

end Steps

/-!
## A whole publish
-/

variable [Zero Word]

theorem writeWords_run {words : List (Fin m)} (hnodup : words.Nodup)
    {wPos : BitVec W} {value : Payload m Word} {written : Fin m -> Bool}
    (hpc : s.publishPc = PublishPc.writeData wPos value written)
    (hunwritten : forall i, i ∈ words -> written i = false) :
    (machine cap m Word).runFrom s (words.map Action.publishWriteWord) =
      some { s with
        queue := s.queue.writeData (cap.slotIndex wPos)
          (overwrite value (s.queue.slots (cap.slotIndex wPos)).data words)
        publishPc := PublishPc.writeData wPos value
          (overwrite (fun _ => true) written words) } := by
  induction words generalizing s written with
  | nil =>
      rw [overwrite_nil, overwrite_nil, ← hpc, Queue.writeData,
        Function.update_eq_self]
      rfl
  | cons w rest ih =>
      have hw : written w = false := hunwritten w List.mem_cons_self
      rw [List.map_cons,
        Machine.runFrom_cons_of_step _ (step_publishWriteWord hpc hw),
        ih (List.nodup_cons.mp hnodup).right rfl
          (untouched_of_nodup hnodup hunwritten),
        ← overwrite_cons, ← overwrite_cons]
      dsimp only
      rw [writeWord_writeData, Queue.writeWord, Queue.writeData_slots_self]

def wholePublish (value : Payload m Word) : List (Action m Word) :=
  Action.publishCall value :: Action.publishStoreOdd ::
    ((List.finRange m).map Action.publishWriteWord ++
      [Action.publishStoreEven, Action.publishStoreCursor])

theorem wholePublish_run (hpc : s.publishPc = PublishPc.idle)
    (value : Payload m Word) :
    (machine cap m Word).runFrom s (wholePublish value) =
      some { s with
        queue := s.queue.publish value
        publishPc := PublishPc.idle
        published := s.published ++ [value]
        completed := s.completed + 1 } := by
  let wPos := s.queue.writeCursor
  let opened : System cap m Word := { s with
    queue := s.queue.storeSeq (cap.slotIndex wPos) (wPos * 2#W + 1#W)
    publishPc := PublishPc.writeData wPos value (fun _ => false)
    published := s.published ++ [value] }
  let copied : System cap m Word := { opened with
    queue := opened.queue.writeData (cap.slotIndex wPos) value
    publishPc := PublishPc.writeData wPos value (fun _ => true) }
  let stamped : System cap m Word := { copied with
    queue := copied.queue.storeSeq (cap.slotIndex wPos) (wPos * 2#W + 2#W)
    publishPc := PublishPc.storeCursor wPos }
  have hodd : System.step { s with
      publishPc := PublishPc.storeOdd wPos value
      published := s.published ++ [value] } Action.publishStoreOdd =
        some opened := step_publishStoreOdd rfl
  have hwords : (machine cap m Word).runFrom opened
      ((List.finRange m).map Action.publishWriteWord) = some copied := by
    rw [writeWords_run (List.nodup_finRange m) rfl (fun _ _ => rfl),
      overwrite_finRange, overwrite_finRange]
  have heven : copied.step Action.publishStoreEven = some stamped :=
    step_publishStoreEven rfl (fun _ => rfl)
  rw [wholePublish,
    Machine.runFrom_cons_of_step _ (step_publishCall hpc value),
    Machine.runFrom_cons_of_step _ hodd]
  apply Machine.runFrom_trans hwords
  rw [Machine.runFrom_cons_of_step _ heven]
  exact Machine.runFrom_cons_of_step []
    (step_publishStoreCursor (s := stamped) rfl)

/-!
## A whole try_read
-/

def Reads (s : System cap m Word) (c : Nat) (r : Reader W m Word)
    (actions : List (ReadAction m)) (r' : Reader W m Word) : Prop :=
  (machine cap m Word).runFrom (s.setReader c r)
    (actions.map (Action.read c)) = some (s.setReader c r')

namespace Reads

variable {c : Nat} {r mid r' : Reader W m Word}

theorem refl : Reads s c r [] r := rfl

theorem cons {a : ReadAction m} {rest : List (ReadAction m)}
    (ha : s.readStep r a = some mid) (hrest : Reads s c mid rest r') :
    Reads s c r (a :: rest) r' := by
  have hreader : (s.setReader c r).readers c = some r :=
    Function.update_self _ _ _
  have hset : (s.setReader c r).setReader c mid = s.setReader c mid := by
    simp only [setReader, Function.update_idem]
  have hstep : (s.setReader c r).step (Action.read c a) =
      some (s.setReader c mid) := by
    rw [step, read, hreader]
    show (s.readStep r a).map ((s.setReader c r).setReader c) = _
    rw [ha, Option.map_some, hset]
  exact (Machine.runFrom_cons_of_step _ hstep).trans hrest

theorem trans {first second : List (ReadAction m)}
    (hfirst : Reads s c r first mid) (hsecond : Reads s c mid second r') :
    Reads s c r (first ++ second) r' := by
  rw [Reads, List.map_append]
  exact Machine.runFrom_trans hfirst hsecond

theorem words {words : List (Fin m)} (hnodup : words.Nodup)
    {seq1 : BitVec W} {copied : Fin m -> Option Word}
    (hpc : r.thread.pc = ReadPc.readData seq1 copied)
    (huncopied : forall i, i ∈ words -> copied i = none) :
    Reads s c r (words.map ReadAction.loadWord) { r with
      thread := ⟨r.thread.state, ReadPc.readData seq1
        (overwrite (fun i => some
          ((s.queue.slots (r.thread.state.slot cap)).data i))
          copied words)⟩ } := by
  induction words generalizing r copied with
  | nil =>
      rw [overwrite_nil, ← hpc]
      exact refl
  | cons w rest ih =>
      have hw : copied w = none := huncopied w List.mem_cons_self
      rw [← overwrite_cons]
      have hfirst : s.readStep r (ReadAction.loadWord w) = some { r with
          thread := ⟨r.thread.state, ReadPc.readData seq1
            (Function.update copied w (some
              ((s.queue.slots (r.thread.state.slot cap)).data w)))⟩ } := by
        simp [readStep, Reader.gotWord, ReadThread.gotWord, hpc, hw]
      apply cons hfirst
      apply ih (List.nodup_cons.mp hnodup).right rfl
      exact untouched_of_nodup hnodup huncopied

end Reads

section TryRead

variable {c : Nat} {r : Reader W m Word} {result : ReadResult W m Word}
variable {state : ConsumerState W}

theorem value_reads (hpc : r.thread.pc = ReadPc.loadSeq)
    (heven : (s.queue.slots (r.thread.state.slot cap)).seq &&& 1#W ≠ 1#W)
    (hexpected : (s.queue.slots (r.thread.state.slot cap)).seq =
      r.thread.state.expectedSeq) :
    exists actions r', Reads s c r actions r' ∧
      Returned s r r'
        (ReadResult.value (s.queue.slots (r.thread.state.slot cap)).data)
        r.thread.state.advance := by
  have hgot : r.thread.gotSeq (s.queue.slots (r.thread.state.slot cap)).seq =
      some (⟨r.thread.state, ReadPc.readData
        (s.queue.slots (r.thread.state.slot cap)).seq (fun _ => none)⟩,
          none) := by
    simp only [ReadThread.gotSeq, hpc]
    rw [if_neg (by simpa using heven), if_neg (by simpa using hexpected)]
  rcases readStep_loadSeq hgot with ⟨stats, hfirst⟩
  let copying (copied : Fin m -> Option Word) : Reader W m Word := { r with
    thread := ⟨r.thread.state, ReadPc.readData
      (s.queue.slots (r.thread.state.slot cap)).seq copied⟩
    stats := stats }
  have hwords : Reads s c (copying (fun _ => none))
      ((List.finRange m).map ReadAction.loadWord)
      (copying (overwrite
        (fun i => some ((s.queue.slots (r.thread.state.slot cap)).data i))
        (fun _ => none) (List.finRange m))) :=
    Reads.words (List.nodup_finRange m) rfl (fun _ _ => rfl)
  rw [overwrite_finRange] at hwords
  rcases readStep_accept (s := s) (r := copying _) rfl
    (collect_eq_some_iff.mpr (fun _ => rfl)) with ⟨r', hlast, hreturned⟩
  exact ⟨_, r',
    Reads.cons hfirst (hwords.trans (Reads.cons hlast Reads.refl)),
    hreturned.thread, hreturned.log⟩

theorem lapped_reads (hpc : r.thread.pc = ReadPc.loadSeq)
    (heven : (s.queue.slots (r.thread.state.slot cap)).seq &&& 1#W ≠ 1#W)
    (hexpected : (s.queue.slots (r.thread.state.slot cap)).seq ≠
      r.thread.state.expectedSeq) :
    exists actions r', Reads s c r actions r' ∧
      Returned s r r'
        (ReadResult.lapped (r.thread.state.jump s.queue.writeCursor).1)
        (r.thread.state.jump s.queue.writeCursor).2 := by
  have hgot : r.thread.gotSeq (s.queue.slots (r.thread.state.slot cap)).seq =
      some (⟨r.thread.state, ReadPc.reloadWriteCursor⟩, none) := by
    simp only [ReadThread.gotSeq, hpc]
    rw [if_neg (by simpa using heven), if_pos (by simpa using hexpected)]
  rcases readStep_loadSeq hgot with ⟨stats, hfirst⟩
  exact ⟨[ReadAction.loadSeq, ReadAction.loadWriteCursor], _,
    Reads.cons hfirst (Reads.cons rfl Reads.refl), rfl, rfl⟩

theorem readLoop_reads {fuel : Nat} (hpc : r.thread.pc = ReadPc.loadSeq)
    (hloop : r.thread.state.readLoop s.queue fuel = some (result, state)) :
    exists actions r', Reads s c r actions r' ∧
      Returned s r r' result state := by
  induction fuel generalizing r with
  | zero => cases hloop
  | succ fuel ih =>
      rw [ConsumerState.readLoop] at hloop
      by_cases hodd :
          (s.queue.slots (r.thread.state.slot cap)).seq &&& 1#W = 1#W
      · -- an odd `seq` sends the call into the next iteration
        rw [if_pos (by simpa using hodd)] at hloop
        have hgot : r.thread.gotSeq
            (s.queue.slots (r.thread.state.slot cap)).seq =
              some (r.thread, none) := by
          simp only [ReadThread.gotSeq, hpc]
          rw [if_pos (by simpa using hodd)]
        rcases readStep_loadSeq hgot with ⟨stats, hfirst⟩
        rcases ih (r := { r with stats := stats }) hpc hloop with
          ⟨actions, r', hreads, hreturned⟩
        exact ⟨ReadAction.loadSeq :: actions, r', Reads.cons hfirst hreads,
          hreturned.thread, hreturned.log⟩
      · rw [if_neg (by simpa using hodd)] at hloop
        by_cases hexpected : (s.queue.slots (r.thread.state.slot cap)).seq =
            r.thread.state.expectedSeq
        · rw [if_neg (by simpa using hexpected),
            if_pos (beq_self_eq_true _)] at hloop
          cases hloop
          exact value_reads hpc hodd hexpected
        · rw [if_pos (by simpa using hexpected)] at hloop
          cases hloop
          exact lapped_reads hpc hodd hexpected

theorem tryRead_reads {fuel : Nat} (hidle : r.thread.pc = ReadPc.idle)
    (hread : r.thread.state.tryRead s.queue fuel = some (result, state)) :
    exists actions r', Reads s c r actions r' ∧
      Returned s r r' result state := by
  rw [ConsumerState.tryRead] at hread
  have hcall : s.readStep r ReadAction.call = some { r with
      thread := { r.thread with
        pc :=
          if r.thread.state.looksEmpty then ReadPc.loadWriteCursor
          else ReadPc.loadSeq }
      stats := { begunAtCall := s.progress.begun } } := by
    simp only [readStep, Reader.beginCall, ReadThread.call, hidle,
      Option.map_some]
  cases hlooks : r.thread.state.looksEmpty with
  | false =>
      rw [hlooks] at hread hcall
      rcases readLoop_reads (s := s) (c := c) (r := { r with
          thread := ⟨r.thread.state, ReadPc.loadSeq⟩
          stats := { begunAtCall := s.progress.begun } }) rfl hread with
        ⟨actions, r', hreads, hreturned⟩
      exact ⟨ReadAction.call :: actions, r', Reads.cons hcall hreads,
        hreturned.thread, hreturned.log⟩
  | true =>
      rw [hlooks] at hread hcall
      let called : Reader W m Word := { r with
        thread := ⟨r.thread.state, ReadPc.loadWriteCursor⟩
        stats := { begunAtCall := s.progress.begun } }
      by_cases hempty : r.thread.state.readCursor = s.queue.writeCursor
      · have hload : s.readStep called ReadAction.loadWriteCursor =
            some (called.resume s.progress s.completed
              (⟨⟨r.thread.state.readCursor, s.queue.writeCursor⟩,
                ReadPc.idle⟩, some ReadResult.empty)) := by
          simp [readStep, Reader.gotWriteCursor, ReadThread.gotWriteCursor,
            ConsumerState.isStillEmpty, ConsumerState.looksEmpty, called,
            hempty]
        simp only [ConsumerState.isStillEmpty, ConsumerState.looksEmpty,
          hempty, beq_self_eq_true, if_true] at hread
        cases hread
        exact ⟨_, _, Reads.cons hcall (Reads.cons hload Reads.refl), by
          rw [← hempty]; rfl, rfl⟩
      · have hload : s.readStep called ReadAction.loadWriteCursor =
            some (called.resume s.progress s.completed
              (⟨⟨r.thread.state.readCursor, s.queue.writeCursor⟩,
                ReadPc.loadSeq⟩, none)) := by
          simp [readStep, Reader.gotWriteCursor, ReadThread.gotWriteCursor,
            ConsumerState.isStillEmpty, ConsumerState.looksEmpty, called,
            hempty]
        have hstill : (r.thread.state.readCursor ==
            s.queue.writeCursor) = false := by simpa using hempty
        simp only [ConsumerState.isStillEmpty, ConsumerState.looksEmpty,
          hstill, Bool.false_eq_true, if_true, if_false] at hread
        rcases readLoop_reads (s := s) (c := c)
          (r := called.resume s.progress s.completed
            (⟨⟨r.thread.state.readCursor, s.queue.writeCursor⟩,
              ReadPc.loadSeq⟩, none)) rfl hread with
          ⟨actions, r', hreads, hreturned⟩
        exact ⟨_, r', Reads.cons hcall (Reads.cons hload hreads),
          hreturned.thread, hreturned.log⟩

end TryRead

end System

/-!
## Every sequence of whole operations
-/

section Replay

variable {W : Nat} {cap : Capacity W} {m : Nat} {Word : Type _}
variable {b b' : Broadcast cap m Word} {s s' : System cap m Word}

/-- No call is running, and the machine has the queue and the consumers. -/
structure Idle (b : Broadcast cap m Word) (s : System cap m Word) : Prop where
  queue : s.queue = b.queue
  publishPc : s.publishPc = PublishPc.idle
  consumers : forall c,
    b.consumers c = (s.readers c).map (fun r => r.thread.state)
  readers : forall c r, s.readers c = some r -> r.thread.pc = ReadPc.idle

/-- What the operation answered is in the log of its reader. -/
def Logged (s s' : System cap m Word) (answer : Answer (BitVec W) m Word) :
    Op m Word -> Prop
  | Op.tryRead c => forall r, s.readers c = some r ->
      exists r' e, s'.readers c = some r' ∧ r'.log = r.log ++ [e] ∧
        answer = Answer.ofResult e.result
  | _ => True

namespace Idle

theorem reader (hs : Idle b s) {c : Nat} {state : ConsumerState W}
    (hc : b.consumers c = some state) :
    exists r, s.readers c = some r ∧ r.thread = ⟨state, ReadPc.idle⟩ := by
  rw [hs.consumers] at hc
  rcases Option.map_eq_some_iff.mp hc with ⟨r, hr, rfl⟩
  refine ⟨r, hr, ?_⟩
  rw [← hs.readers c r hr]

theorem no_reader (hs : Idle b s) {c : Nat} (hc : b.consumers c = none) :
    s.readers c = none := by
  rw [hs.consumers] at hc
  exact Option.map_eq_none_iff.mp hc

theorem setReader (hs : Idle b s) (c : Nat) {r : Reader W m Word}
    {state : ConsumerState W} (hr : r.thread = ⟨state, ReadPc.idle⟩) :
    Idle { b with consumers := Function.update b.consumers c (some state) }
      (s.setReader c r) := by
  refine ⟨hs.queue, hs.publishPc, ?_, ?_⟩
  · have hupdate := update_map hs.consumers c r
    rw [hr] at hupdate
    exact hupdate
  · intro d r' hr'
    rcases System.readers_setReader hr' with ⟨_, rfl⟩ | hold
    · rw [hr]
    · exact hs.readers d r' hold

end Idle

variable [Zero Word]

inductive Replay : System cap m Word -> List (Op m Word) ->
    List (Answer (BitVec W) m Word) -> System cap m Word -> Prop where
  | nil (s : System cap m Word) : Replay s [] [] s
  | cons {s mid s' : System cap m Word} {op : Op m Word}
      {rest : List (Op m Word)} {answer : Answer (BitVec W) m Word}
      {given : List (Answer (BitVec W) m Word)}
      (actions : List (Action m Word))
      (hrun : (machine cap m Word).runFrom s actions = some mid)
      (hlogged : Logged s mid answer op)
      (hrest : Replay mid rest given s') :
      Replay s (op :: rest) (answer :: given) s'

namespace Idle

theorem new (cap : Capacity W) (m : Nat) (Word : Type _) [Zero Word] :
    Idle (Broadcast.new cap m Word) (System.new cap m Word) := by
  constructor
  · rfl
  · rfl
  · exact update_map (p := fun r => r.thread.state) (g := fun _ => none)
      (fun _ => rfl) 0 (Reader.new W m Word)
  · intro c r hr
    rw [System.readers_new hr]
    rfl

theorem publish (hs : Idle b s) (value : Payload m Word) :
    exists actions s',
      (machine cap m Word).runFrom s actions = some s' ∧
      Idle { b with queue := b.queue.publish value } s' := by
  refine ⟨System.wholePublish value, _,
    System.wholePublish_run hs.publishPc value, ?_, rfl, hs.consumers,
    hs.readers⟩
  exact congrArg (fun q => q.publish value) hs.queue

theorem tryRead (hs : Idle b s) {c fuel : Nat} {state state' : ConsumerState W}
    {result : ReadResult W m Word} (hc : b.consumers c = some state)
    (hread : state.tryRead b.queue fuel = some (result, state')) :
    exists actions s',
      (machine cap m Word).runFrom s actions = some s' ∧
      Idle { b with
        consumers := Function.update b.consumers c (some state') } s' ∧
      Logged s s' (Answer.ofResult result) (Op.tryRead c) := by
  rcases hs.reader hc with ⟨r, hr, hthread⟩
  have hself : s.setReader c r = s := by
    simp only [System.setReader, ← hr, Function.update_eq_self]
  rw [← hs.queue] at hread
  rcases System.tryRead_reads (c := c) (s := s) (r := r) (by rw [hthread])
    (by rw [hthread]; exact hread) with ⟨actions, r', hreads, hreturned⟩
  rw [System.Reads, hself] at hreads
  refine ⟨_, _, hreads, hs.setReader c hreturned.thread, ?_⟩
  intro r₀ hr₀
  rw [hr] at hr₀
  cases hr₀
  exact ⟨r', _, Function.update_self _ _ _, hreturned.log, rfl⟩

theorem clone (hs : Idle b s) {parent child : Nat} {state : ConsumerState W}
    (hparent : b.consumers parent = some state)
    (hchild : b.consumers child = none) :
    exists actions s',
      (machine cap m Word).runFrom s actions = some s' ∧
      Idle { b with
        consumers := Function.update b.consumers child (some state) } s' := by
  rcases hs.reader hparent with ⟨r, hr, hthread⟩
  have hclone : r.clone = some { r with
      start := r.position, log := [], stats := {} } := by
    rw [Reader.clone, hthread]
  have hstep : s.step (Action.clone parent child) =
      some (s.setReader child { r with
        start := r.position, log := [], stats := {} }) := by
    simp only [System.step, System.clone, hr, hs.no_reader hchild, hclone,
      Option.map_some]
  exact ⟨[Action.clone parent child], _,
    Machine.runFrom_cons_of_step [] hstep, hs.setReader child hthread⟩

theorem exec (hs : Idle b s) {fuel : Nat} {op : Op m Word}
    {answer : Answer (BitVec W) m Word}
    (h : b.exec fuel op = some (answer, b')) :
    exists actions s',
      (machine cap m Word).runFrom s actions = some s' ∧
      Idle b' s' ∧ Logged s s' answer op := by
  cases op with
  | publish value =>
      cases h
      rcases hs.publish value with ⟨actions, s', hrun, hidle⟩
      exact ⟨actions, s', hrun, hidle, trivial⟩
  | tryRead c =>
      simp only [Broadcast.exec] at h
      cases hc : b.consumers c with
      | none =>
          simp only [hc] at h
          cases h
          refine ⟨[], s, rfl, hs, ?_⟩
          intro r hr
          rw [hs.no_reader hc] at hr
          cases hr
      | some state =>
          simp only [hc] at h
          cases hread : state.tryRead b.queue fuel with
          | none => simp only [hread, reduceCtorEq] at h
          | some out =>
              simp only [hread] at h
              cases h
              exact hs.tryRead hc hread
  | clone parent child =>
      simp only [Broadcast.exec] at h
      split at h
      · rename_i state hparent hchild
        cases h
        rcases hs.clone hparent hchild with ⟨actions, s', hrun, hidle⟩
        exact ⟨actions, s', hrun, hidle, trivial⟩
      · cases h
        exact ⟨[], s, rfl, hs, trivial⟩

theorem replay (hs : Idle b s) {fuel : Nat} {ops : List (Op m Word)}
    {given : List (Answer (BitVec W) m Word)}
    (h : b.answers fuel ops = some given) :
    exists s', Replay s ops given s' := by
  induction ops generalizing b s given with
  | nil =>
      cases h
      exact ⟨s, Replay.nil s⟩
  | cons op rest ih =>
      rw [Broadcast.answers] at h
      cases hexec : b.exec fuel op with
      | none => simp only [hexec, reduceCtorEq] at h
      | some out =>
          simp only [hexec] at h
          rcases Option.map_eq_some_iff.mp h with ⟨given', hrest, rfl⟩
          rcases hs.exec hexec with ⟨actions, mid, hrun, hidle, hlogged⟩
          rcases ih hidle hrest with ⟨s', hreplay⟩
          exact ⟨s', Replay.cons actions hrun hlogged hreplay⟩

end Idle

/--
What the whole operations answer from the start, the steps of the machine
answer too, in a run in which no two calls overlap.
-/
theorem broadcast_replay {fuel : Nat} {ops : List (Op m Word)}
    {given : List (Answer (BitVec W) m Word)}
    (h : (Broadcast.new cap m Word).answers fuel ops = some given) :
    exists s', Replay (System.new cap m Word) ops given s' :=
  (Idle.new cap m Word).replay h

end Replay
end Spmc
end LowLatency
