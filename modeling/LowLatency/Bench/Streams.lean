import LowLatency.Spsc.BoundedQueue
import LowLatency.Spmc.AppendLog

/-!
# Queues as the benches see them

The consumer of a bench polls a queue and counts what it is told.  The queues
are the abstract ones, with whole operations: the bounded FIFO behind the SPSC
queue, and a log with lap jumps behind the broadcast queue.
-/

namespace LowLatency
namespace Bench

open Foundation

universe u

variable {T : Type u}

/-- An answer to `try_pop` or `try_read`; `try_pop` is never lapped. -/
inductive Polled (T : Type u) where
  | value (item : T)
  | lapped (skipped : Nat)
  | empty
deriving DecidableEq, Repr

/-!
## What the answers account for
-/

namespace Polled

def size : Polled T -> Nat
  | value _ => 1
  | lapped skipped => skipped
  | empty => 0

def Takes : Polled T -> List T -> List T -> Prop
  | value item, before, after => before = item :: after
  | lapped skipped, before, after =>
      skipped ≤ before.length ∧ after = before.drop skipped
  | empty, before, after => before = [] ∧ after = []

end Polled

def covered (answers : List (Polled T)) : Nat :=
  (answers.map Polled.size).sum

/-- Item `i` was read as a value, or lies in a reported skipped count. -/
def AccountedFor (published : List T) (answers : List (Polled T))
    (i : Nat) : Prop :=
  exists before answer after, answers = before ++ answer :: after ∧
    ((exists item, answer = Polled.value item ∧ covered before = i ∧
        published[i]? = some item) ∨
      (exists skipped, answer = Polled.lapped skipped ∧
        covered before ≤ i ∧ i < covered before + skipped))

theorem covered_append (first second : List (Polled T)) :
    covered (first ++ second) = covered first + covered second := by
  rw [covered, List.map_append, List.sum_append]
  rfl

theorem covered_snoc (answers : List (Polled T)) (answer : Polled T) :
    covered (answers ++ [answer]) = covered answers + answer.size := by
  rw [covered_append]
  simp [covered]

theorem AccountedFor.lt_covered {published : List T}
    {answers : List (Polled T)} {i : Nat}
    (h : AccountedFor published answers i) : i < covered answers := by
  rcases h with ⟨before, answer, after, rfl, hanswer⟩
  have hsplit : covered (before ++ answer :: after) =
      covered before + answer.size + covered after := by
    rw [List.append_cons, covered_append, covered_snoc]
  rw [hsplit]
  rcases hanswer with ⟨item, rfl, hcovered, _⟩ | ⟨skipped, rfl, _, hlt⟩
  · have hsize : (Polled.value item).size = 1 := rfl
    lia
  · have hsize : (Polled.lapped skipped : Polled T).size = skipped := rfl
    lia

theorem AccountedFor.answered {published : List T}
    {answers : List (Polled T)} {i : Nat}
    (h : AccountedFor published answers i) (answer : Polled T) :
    AccountedFor published (answers ++ [answer]) i := by
  rcases h with ⟨before, old, after, rfl, hanswer⟩
  exact ⟨before, old, after ++ [answer], by simp, hanswer⟩

theorem AccountedFor.published {published : List T}
    {answers : List (Polled T)} {i : Nat}
    (h : AccountedFor published answers i) (item : T) :
    AccountedFor (published ++ [item]) answers i := by
  rcases h with ⟨before, answer, after, hsplit, hanswer⟩
  refine ⟨before, answer, after, hsplit, ?_⟩
  rcases hanswer with ⟨old, rfl, hcovered, hitem⟩ | hskipped
  · have hitem' := getElem?_append_of_eq_some hitem [item]
    exact Or.inl ⟨old, rfl, hcovered, hitem'⟩
  · exact Or.inr hskipped

/-- The answers account for all items but those that are unread. -/
structure Accounts (published : List T) (answers : List (Polled T))
    (unread : List T) : Prop where
  covered_le : covered answers ≤ published.length
  unread_eq : unread = published.drop (covered answers)
  accounted : forall i, i < covered answers ->
    AccountedFor published answers i

namespace Accounts

variable {published unread unread' : List T} {answers : List (Polled T)}

theorem nil : Accounts ([] : List T) [] [] where
  covered_le := Nat.le_refl _
  unread_eq := rfl
  accounted := by
    intro i hi
    exact absurd hi (Nat.not_lt_zero i)

theorem publish (ha : Accounts published answers unread) (item : T) :
    Accounts (published ++ [item]) answers (unread ++ [item]) where
  covered_le := by
    rw [List.length_append]
    exact Nat.le_add_right_of_le ha.covered_le
  unread_eq := by
    rw [ha.unread_eq, List.drop_append_of_le_length ha.covered_le]
  accounted i hi := (ha.accounted i hi).published item

theorem length_unread (ha : Accounts published answers unread) :
    published.length = covered answers + unread.length := by
  have hle := ha.covered_le
  rw [ha.unread_eq, List.length_drop]
  lia

theorem answer (ha : Accounts published answers unread) {answer : Polled T}
    (htakes : answer.Takes unread unread') :
    Accounts published (answers ++ [answer]) unread' := by
  have hlength := ha.length_unread
  cases answer with
  | value item =>
      have hunread : unread = item :: unread' := htakes
      have hcovered : covered (answers ++ [Polled.value item]) =
          covered answers + 1 := covered_snoc _ _
      have hdrop : published.drop (covered answers) = item :: unread' := by
        rw [← ha.unread_eq, hunread]
      have hitem : published[covered answers]? = some item := by
        have hhead := congrArg (fun l => l[0]?) hdrop
        simpa using hhead
      constructor
      · rw [hcovered, hlength, hunread, List.length_cons]
        lia
      · rw [hcovered, ← List.drop_drop, hdrop]
        rfl
      · intro i hi
        rw [hcovered] at hi
        rcases Nat.lt_or_eq_of_le (Nat.le_of_lt_succ hi) with hlt | rfl
        · exact (ha.accounted i hlt).answered _
        · exact ⟨answers, _, [], rfl, Or.inl ⟨item, rfl, rfl, hitem⟩⟩
  | lapped skipped =>
      rcases htakes with ⟨hle, hdrop⟩
      have hcovered : covered (answers ++ [Polled.lapped skipped]) =
          covered answers + skipped := covered_snoc _ _
      constructor
      · rw [hcovered]
        lia
      · rw [hcovered, hdrop, ha.unread_eq, List.drop_drop]
      · intro i hi
        rw [hcovered] at hi
        rcases Nat.lt_or_ge i (covered answers) with hlt | hge
        · exact (ha.accounted i hlt).answered _
        · exact ⟨answers, _, [], rfl, Or.inr ⟨skipped, rfl, hge, hi⟩⟩
  | empty =>
      rcases htakes with ⟨hbefore, hafter⟩
      have hcovered : covered (answers ++ [Polled.empty]) =
          covered answers := covered_snoc _ _
      constructor
      · rw [hcovered]
        exact ha.covered_le
      · rw [hcovered, ← ha.unread_eq, hbefore, hafter]
      · intro i hi
        rw [hcovered] at hi
        exact (ha.accounted i hi).answered _

/-- Everything is accounted for exactly when nothing is unread. -/
theorem all_iff (ha : Accounts published answers unread) :
    (forall i, i < published.length -> AccountedFor published answers i) <->
      unread = [] := by
  have hlength := ha.length_unread
  constructor
  · intro hall
    apply List.eq_nil_of_length_eq_zero
    apply Nat.eq_zero_of_not_pos
    intro hpos
    have hlt := (hall (covered answers) (by lia)).lt_covered
    exact Nat.lt_irrefl _ hlt
  · intro hnone i hi
    rw [hnone, List.length_nil] at hlength
    exact ha.accounted i (by lia)

end Accounts

/-!
## Abstract queues
-/

/-- A queue with atomic operations; `jump` is where a lapped read goes. -/
structure PolledQueue (T : Type u) where
  State : Type u
  start : State
  publish : State -> T -> Option State
  poll : State -> Option Nat -> Option (Polled T × State)
  unread : State -> List T
  unread_start : unread start = []
  unread_publish : forall {q q' : State} {item : T},
    publish q item = some q' -> unread q' = unread q ++ [item]
  unread_poll : forall {q q' : State} {jump : Option Nat}
    {answer : Polled T}, poll q jump = some (answer, q') ->
      answer.Takes (unread q) (unread q')

/-- The bounded FIFO; a full queue refuses the item. -/
def fifo (capacity : Nat) (T : Type u) : PolledQueue T where
  State := List T
  start := []
  publish q item :=
    match (Spsc.boundedQueue capacity T).apply q (Spsc.QueueOp.push item) with
    | (Spsc.QueueRes.pushed none, q') => some q'
    | _ => none
  poll q _ :=
    match (Spsc.boundedQueue capacity T).apply q Spsc.QueueOp.pop with
    | (Spsc.QueueRes.popped (some (some item)), q') =>
        some (Polled.value item, q')
    | (_, q') => some (Polled.empty, q')
  unread q := q
  unread_start := rfl
  unread_publish := by
    intro q q' item h
    by_cases hfull : q.length = capacity
    · simp [Spsc.boundedQueue, hfull] at h
    · simp [Spsc.boundedQueue, hfull] at h
      exact h.symm
  unread_poll := by
    intro q q' jump answer h
    cases q with
    | nil =>
        cases h
        exact ⟨rfl, rfl⟩
    | cons item rest =>
        cases h
        rfl

structure LapLog (T : Type u) where
  entries : List T
  cursor : Nat
  cursor_le : cursor ≤ entries.length

namespace LapLog

def publish (l : LapLog T) (item : T) : LapLog T where
  entries := l.entries ++ [item]
  cursor := l.cursor
  cursor_le := by
    rw [List.length_append]
    exact Nat.le_add_right_of_le l.cursor_le

/-- `try_read`; a lapped read jumps forward inside the log. -/
def tryRead (l : LapLog T) : Option Nat -> Option (Polled T × LapLog T)
  | none =>
      if h : l.cursor < l.entries.length then
        some (Polled.value (l.entries.get ⟨l.cursor, h⟩),
          ⟨l.entries, l.cursor + 1, h⟩)
      else some (Polled.empty, l)
  | some target =>
      if h : l.cursor ≤ target ∧ target ≤ l.entries.length then
        some (Polled.lapped (target - l.cursor), ⟨l.entries, target, h.right⟩)
      else none

def unread (l : LapLog T) : List T :=
  l.entries.drop l.cursor

theorem unread_tryRead {l l' : LapLog T} {jump : Option Nat}
    {answer : Polled T} (h : l.tryRead jump = some (answer, l')) :
    answer.Takes l.unread l'.unread := by
  cases jump with
  | none =>
      by_cases hlt : l.cursor < l.entries.length
      · simp only [tryRead, hlt, dite_true, Option.some.injEq,
          Prod.mk.injEq] at h
        rcases h with ⟨rfl, rfl⟩
        exact List.drop_eq_getElem_cons hlt
      · simp only [tryRead, hlt, dite_false, Option.some.injEq,
          Prod.mk.injEq] at h
        rcases h with ⟨rfl, rfl⟩
        have hnone : l.unread = [] := List.drop_of_length_le (by lia)
        exact ⟨hnone, hnone⟩
  | some target =>
      by_cases hjump : l.cursor ≤ target ∧ target ≤ l.entries.length
      · simp only [tryRead, hjump, and_self, dite_true, Option.some.injEq,
          Prod.mk.injEq] at h
        rcases h with ⟨rfl, rfl⟩
        constructor
        · rw [unread, List.length_drop]
          lia
        · rw [unread, unread, List.drop_drop,
            Nat.add_sub_cancel' hjump.left]
      · simp [tryRead, hjump] at h

end LapLog

/-- The log with lap jumps; it never refuses an item. -/
def lapLog (T : Type u) : PolledQueue T where
  State := LapLog T
  start := ⟨[], 0, Nat.le_refl _⟩
  publish l item := some (l.publish item)
  poll := LapLog.tryRead
  unread := LapLog.unread
  unread_start := rfl
  unread_publish := by
    intro l l' item h
    cases h
    exact List.drop_append_of_le_length l.cursor_le
  unread_poll := LapLog.unread_tryRead

def Polled.toAnswer {m : Nat} {Word : Type u} :
    Polled (Payload m Word) -> Spmc.Answer Nat m Word
  | value v => Spmc.Answer.value v
  | lapped skipped => Spmc.Answer.lapped skipped
  | empty => Spmc.Answer.empty

theorem readAt_is_tryRead {m : Nat} {Word : Type u}
    (l : LapLog (Payload m Word)) (capacity : Nat) :
    exists jump answer l', l.tryRead jump = some (answer, l') ∧
      l'.entries = l.entries ∧
      Spmc.AppendLog.readAt l.entries capacity l.cursor =
        (answer.toAnswer, l'.cursor) := by
  have hle := l.cursor_le
  unfold Spmc.AppendLog.readAt
  by_cases hend : l.cursor = l.entries.length
  · refine ⟨none, Polled.empty, l, ?_, rfl, ?_⟩
    · exact dif_neg (by lia)
    · rw [if_pos hend]
      rfl
  · have hlt : l.cursor < l.entries.length := by lia
    rw [if_neg hend]
    by_cases hlag : l.cursor < l.entries.length ∧
        l.entries.length - l.cursor ≤ capacity
    · rw [dif_pos hlag]
      exact ⟨none, _, _, dif_pos hlt, rfl, rfl⟩
    · rw [dif_neg hlag]
      refine ⟨some (l.entries.length - 1), _, _, dif_pos ?_, rfl, ?_⟩
      · lia
      · rfl

end Bench
end LowLatency
