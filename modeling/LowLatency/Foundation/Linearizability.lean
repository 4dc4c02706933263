import Mathlib.Logic.Function.Basic

/-!
# Linearizability

A concurrent object is linearizable when each of its calls takes effect at one
instant between its invocation and its return.  The definition used here runs a
sequential object behind the calls: between a call event and its return event
there is exactly one silent step that applies the operation to the sequential
state and fixes the result that the return has to report.
-/

namespace LowLatency
namespace Foundation

/-- A sequential object: its start state, and result and next state of an operation. -/
structure SequentialObject (State : Type _) (Op : Type _) (Res : Type _) where
  start : State
  apply : State -> Op -> Res × State

namespace Linearizability

inductive Event (Thread : Type _) (Op : Type _) (Res : Type _) where
  | call (t : Thread) (op : Op)
  | ret (t : Thread) (res : Res)
deriving DecidableEq, Repr

inductive Status (Op : Type _) (Res : Type _) where
  | idle
  | called (op : Op)
  | done (res : Res)
deriving DecidableEq, Repr

variable {State Thread Op Res : Type _} [DecidableEq Thread]

/--
`Serves O h q st`: the sequential object `O` can stand behind the history `h`,
ending with sequential state `q` and with the threads in the statuses `st`.
-/
inductive Serves (O : SequentialObject State Op Res) :
    List (Event Thread Op Res) -> State -> (Thread -> Status Op Res) -> Prop where
  | start : Serves O [] O.start (fun _ => Status.idle)
  | call {h q st} (t : Thread) (op : Op) :
      Serves O h q st -> st t = Status.idle ->
      Serves O (h ++ [Event.call t op]) q
        (Function.update st t (Status.called op))
  | effect {h q st} (t : Thread) (op : Op) :
      Serves O h q st -> st t = Status.called op ->
      Serves O h (O.apply q op).2
        (Function.update st t (Status.done (O.apply q op).1))
  | ret {h q st} (t : Thread) (res : Res) :
      Serves O h q st -> st t = Status.done res ->
      Serves O (h ++ [Event.ret t res]) q
        (Function.update st t Status.idle)

def Linearizable (O : SequentialObject State Op Res)
    (h : List (Event Thread Op Res)) : Prop :=
  exists q st, Serves O h q st

/-!
## Simulation rules

An implementation carries `Serves` along its runs.  A step that is the instant
of its call and also returns uses the last rule.
-/

theorem Serves.linearizable {O : SequentialObject State Op Res}
    {h : List (Event Thread Op Res)} {q : State} {st : Thread -> Status Op Res}
    (hs : Serves O h q st) : Linearizable O h :=
  ⟨q, st, hs⟩

theorem Serves.congr_status {O : SequentialObject State Op Res}
    {h : List (Event Thread Op Res)} {q : State}
    {st st' : Thread -> Status Op Res} (hs : Serves O h q st)
    (heq : forall t, st t = st' t) : Serves O h q st' := by
  have hst : st = st' := funext heq
  rw [← hst]
  exact hs

theorem Serves.effect_ret {O : SequentialObject State Op Res}
    {h : List (Event Thread Op Res)} {q q' : State} {res : Res}
    {st : Thread -> Status Op Res} {t : Thread} {op : Op}
    (hs : Serves O h q st) (ht : st t = Status.called op)
    (happly : O.apply q op = (res, q')) :
    Serves O (h ++ [Event.ret t res]) q'
      (Function.update st t Status.idle) := by
  have heffect := Serves.effect t op hs ht
  rw [happly] at heffect
  have hret := Serves.ret t res heffect (Function.update_self t _ st)
  rw [Function.update_idem] at hret
  exact hret

end Linearizability
end Foundation
end LowLatency
