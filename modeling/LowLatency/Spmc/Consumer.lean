import LowLatency.Spmc.Queue

/-!
# The reading handle

`try_read` is a loop over loads from shared memory.  Its private part is kept
apart from the memory: a read thread stands before its next load, and is
resumed with the value that the load returned.  Which values a load may return
is decided by the memory model that runs the thread.
-/

namespace LowLatency
namespace Spmc

/-- `ConsumerStateInner`. -/
structure ConsumerState (W : Nat) where
  readCursor : BitVec W
  cachedWriteCursor : BitVec W
deriving DecidableEq, Repr

inductive ReadResult (W m : Nat) (Word : Type _) where
  | value (v : Payload m Word)
  | empty
  | lapped (skipped : BitVec W)

namespace ReadResult

variable {W m : Nat} {Word : Type _}

def value? : ReadResult W m Word -> Option (Payload m Word)
  | value v => some v
  | _ => none

theorem value?_eq_some {result : ReadResult W m Word} {v : Payload m Word} :
    result.value? = some v <-> result = value v := by
  cases result with
  | value v' => simp [value?]
  | empty => simp [value?]
  | lapped skipped => simp [value?]

def skipped? : ReadResult W m Word -> Option (BitVec W)
  | lapped skipped => some skipped
  | _ => none

theorem skipped?_eq_some {result : ReadResult W m Word} {k : BitVec W} :
    result.skipped? = some k <-> result = lapped k := by
  cases result with
  | value v => simp [skipped?]
  | empty => simp [skipped?]
  | lapped skipped => simp [skipped?]

theorem eq_empty {result : ReadResult W m Word}
    (h : (result.value?.isNone && result.skipped?.isNone) = true) :
    result = empty := by
  rcases Bool.and_eq_true_iff.mp h with ⟨hvalue, hskipped⟩
  cases result with
  | value v => cases hvalue
  | empty => rfl
  | lapped skipped => cases hskipped

end ReadResult

namespace ConsumerState

variable {W : Nat} {cap : Capacity W} {m : Nat} {Word : Type _}

def new (W : Nat) : ConsumerState W where
  readCursor := 0#W
  cachedWriteCursor := 0#W

/-- The test `read_cursor == cached_write_cursor`. -/
def looksEmpty (c : ConsumerState W) : Bool :=
  c.readCursor == c.cachedWriteCursor

/-- `is_still_empty` once the load of `write_cursor` has returned. -/
def isStillEmpty (c : ConsumerState W) (writeCursor : BitVec W) :
    Bool × ConsumerState W :=
  let c := { c with cachedWriteCursor := writeCursor }
  (c.looksEmpty, c)

def slot (cap : Capacity W) (c : ConsumerState W) : Fin cap.size :=
  cap.slotIndex c.readCursor

/-- The `seq` of the slot after the producer has written the wanted item. -/
def expectedSeq (c : ConsumerState W) : BitVec W :=
  c.readCursor * 2#W + 2#W

/-- The jump of the `Lapped` branch, with the reloaded `write_cursor`. -/
def jump (c : ConsumerState W) (writeCursor : BitVec W) :
    BitVec W × ConsumerState W :=
  let newReadCursor := writeCursor - 1#W
  let skipped := newReadCursor - c.readCursor
  (skipped, ⟨newReadCursor, writeCursor⟩)

def advance (c : ConsumerState W) : ConsumerState W :=
  { c with readCursor := c.readCursor + 1#W }

/--
The loop of `try_read` over a memory that no one changes meanwhile; `none` when
the given number of iterations does not suffice.
-/
def readLoop (c : ConsumerState W) (q : Queue cap m Word) :
    Nat -> Option (ReadResult W m Word × ConsumerState W)
  | 0 => none
  | fuel + 1 =>
      let seq1 := (q.slots (c.slot cap)).seq
      if seq1 &&& 1#W == 1#W then
        readLoop c q fuel
      else if seq1 != c.expectedSeq then
        let (skipped, c) := c.jump q.writeCursor
        some (ReadResult.lapped skipped, c)
      else
        let attemptedRead := (q.slots (c.slot cap)).data
        let seq2 := (q.slots (c.slot cap)).seq
        if seq1 == seq2 then
          some (ReadResult.value attemptedRead, c.advance)
        else
          readLoop c q fuel

/-- `try_read` with no other party in between. -/
def tryRead (c : ConsumerState W) (q : Queue cap m Word) (fuel : Nat) :
    Option (ReadResult W m Word × ConsumerState W) :=
  if c.looksEmpty then
    let (empty, c) := c.isStillEmpty q.writeCursor
    if empty then some (ReadResult.empty, c) else c.readLoop q fuel
  else
    c.readLoop q fuel

end ConsumerState

/-!
## The read thread
-/

/-- The load before which `try_read` stands. -/
inductive ReadPc (W m : Nat) (Word : Type _) where
  | idle
  /-- The load in `is_still_empty`. -/
  | loadWriteCursor
  /-- The load of `seq1`. -/
  | loadSeq
  /-- The payload copy, and the load of `seq2` once all words are copied. -/
  | readData (seq1 : BitVec W) (copied : Fin m -> Option Word)
  /-- The load of `write_cursor` in the `Lapped` branch. -/
  | reloadWriteCursor

structure ReadThread (W m : Nat) (Word : Type _) where
  state : ConsumerState W
  pc : ReadPc W m Word

namespace ReadThread

variable {W : Nat} {m : Nat} {Word : Type _}

def new (W m : Nat) (Word : Type _) : ReadThread W m Word where
  state := ConsumerState.new W
  pc := ReadPc.idle

def call (t : ReadThread W m Word) : Option (ReadThread W m Word) :=
  match t.pc with
  | ReadPc.idle =>
      some { t with
        pc :=
          if t.state.looksEmpty then ReadPc.loadWriteCursor
          else ReadPc.loadSeq }
  | _ => none

def gotWriteCursor (t : ReadThread W m Word) (writeCursor : BitVec W) :
    Option (ReadThread W m Word × Option (ReadResult W m Word)) :=
  match t.pc with
  | ReadPc.loadWriteCursor =>
      let (empty, c) := t.state.isStillEmpty writeCursor
      if empty then some (⟨c, ReadPc.idle⟩, some ReadResult.empty)
      else some (⟨c, ReadPc.loadSeq⟩, none)
  | ReadPc.reloadWriteCursor =>
      let (skipped, c) := t.state.jump writeCursor
      some (⟨c, ReadPc.idle⟩, some (ReadResult.lapped skipped))
  | _ => none

/-- Resume after a load of the slot's `seq`, as `seq1` or as `seq2`. -/
def gotSeq (t : ReadThread W m Word) (seq : BitVec W) :
    Option (ReadThread W m Word × Option (ReadResult W m Word)) :=
  match t.pc with
  | ReadPc.loadSeq =>
      if seq &&& 1#W == 1#W then some (t, none)
      else if seq != t.state.expectedSeq then
        some ({ t with pc := ReadPc.reloadWriteCursor }, none)
      else
        some ({ t with pc := ReadPc.readData seq (fun _ => none) }, none)
  | ReadPc.readData seq1 copied =>
      match collect copied with
      | none => none
      | some attemptedRead =>
          if seq1 == seq then
            some (⟨t.state.advance, ReadPc.idle⟩,
              some (ReadResult.value attemptedRead))
          else some ({ t with pc := ReadPc.loadSeq }, none)
  | _ => none

def gotWord (t : ReadThread W m Word) (i : Fin m) (word : Word) :
    Option (ReadThread W m Word) :=
  match t.pc with
  | ReadPc.readData seq1 copied =>
      match copied i with
      | none =>
          some { t with
            pc := ReadPc.readData seq1
              (Function.update copied i (some word)) }
      | some _ => none
  | _ => none

end ReadThread
end Spmc
end LowLatency
