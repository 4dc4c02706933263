import Mathlib.Data.Fintype.Card
import Mathlib.Data.List.FinRange
import Mathlib.Logic.Function.Basic

/-!
# Payloads

A payload of any type is modelled by the machine words it consists of, since a
reader can be overtaken between any two of them.  A copy in progress has some
of the words.
-/

namespace LowLatency

abbrev Payload (m : Nat) (Word : Type _) := Fin m -> Word

def collect {m : Nat} {Word : Type _} (copied : Fin m -> Option Word) :
    Option (Payload m Word) :=
  if h : forall i, (copied i).isSome then
    some (fun i => (copied i).get (h i))
  else
    none

theorem collect_eq_some_iff {m : Nat} {Word : Type _}
    {copied : Fin m -> Option Word} {v : Payload m Word} :
    collect copied = some v <-> forall i, copied i = some (v i) := by
  unfold collect
  constructor
  · intro h i
    split at h
    · rename_i hall
      rw [← Option.some.inj h]
      exact (Option.some_get (hall i)).symm
    · cases h
  · intro h
    have hall : forall i, (copied i).isSome := by
      intro i
      rw [h i]
      rfl
    rw [dif_pos hall]
    congr 1
    funext i
    exact Option.some.inj ((Option.some_get (hall i)).trans (h i))

/-!
## Words that are still missing
-/

def missing {m : Nat} {Word : Type _} (copied : Fin m -> Option Word) : Nat :=
  (Finset.univ.filter (fun i => (copied i).isNone)).card

theorem missing_none (m : Nat) (Word : Type _) :
    missing (fun _ : Fin m => (none : Option Word)) = m := by
  simp [missing]

theorem missing_le {m : Nat} {Word : Type _}
    (copied : Fin m -> Option Word) : missing copied ≤ m := by
  have hcard := Finset.card_le_univ
    (Finset.univ.filter (fun i => (copied i).isNone))
  rw [Fintype.card_fin] at hcard
  exact hcard

theorem missing_update_lt {m : Nat} {Word : Type _}
    {copied : Fin m -> Option Word} {i : Fin m} (h : copied i = none)
    (word : Word) :
    missing (Function.update copied i (some word)) < missing copied := by
  apply Finset.card_lt_card
  constructor
  · intro j hj
    rw [Finset.mem_filter] at hj ⊢
    rcases eq_or_ne j i with rfl | hne
    · rw [h]
      exact ⟨Finset.mem_univ j, rfl⟩
    · rw [Function.update_of_ne hne] at hj
      exact hj
  · intro hall
    have hi : i ∈ Finset.univ.filter (fun i => (copied i).isNone) := by
      rw [Finset.mem_filter, h]
      exact ⟨Finset.mem_univ i, rfl⟩
    have hnew := (Finset.mem_filter.mp (hall hi)).right
    rw [Function.update_self] at hnew
    cases hnew

theorem exists_missing_or_collect {m : Nat} {Word : Type _}
    (copied : Fin m -> Option Word) :
    (exists i, copied i = none) ∨ exists v, collect copied = some v := by
  by_cases hall : forall i, (copied i).isSome
  · right
    unfold collect
    rw [dif_pos hall]
    exact ⟨_, rfl⟩
  · left
    rcases not_forall.mp hall with ⟨i, hi⟩
    exact ⟨i, Option.not_isSome_iff_eq_none.mp hi⟩

/-!
## Copies word by word
-/

section Overwrite

variable {m : Nat} {α : Type _} (new old : Fin m -> α)

/-- `new` at the listed words and `old` at the others. -/
def overwrite (words : List (Fin m)) : Fin m -> α :=
  fun i => if i ∈ words then new i else old i

theorem overwrite_nil : overwrite new old [] = old :=
  funext (fun _ => if_neg List.not_mem_nil)

theorem overwrite_cons (w : Fin m) (rest : List (Fin m)) :
    overwrite new (Function.update old w (new w)) rest =
      overwrite new old (w :: rest) := by
  funext i
  unfold overwrite
  by_cases hrest : i ∈ rest
  · rw [if_pos hrest, if_pos (List.mem_cons_of_mem w hrest)]
  · rw [if_neg hrest]
    rcases eq_or_ne i w with rfl | hne
    · rw [if_pos List.mem_cons_self, Function.update_self]
    · rw [if_neg (List.not_mem_cons_of_ne_of_not_mem hne hrest),
        Function.update_of_ne hne]

theorem untouched_of_nodup {f : Fin m -> α} {a b : α} {w : Fin m}
    {rest : List (Fin m)} (hnodup : (w :: rest).Nodup)
    (h : forall i, i ∈ w :: rest -> f i = a) :
    forall i, i ∈ rest -> Function.update f w b i = a := by
  intro i hi
  have hne : i ≠ w := by
    intro heq
    rw [heq] at hi
    exact (List.nodup_cons.mp hnodup).left hi
  rw [Function.update_of_ne hne]
  exact h i (List.mem_cons_of_mem w hi)

theorem foldl_update_eq_overwrite (words : List (Fin m)) :
    words.foldl (fun f w => Function.update f w (new w)) old =
      overwrite new old words := by
  induction words generalizing old with
  | nil =>
      exact (overwrite_nil new old).symm
  | cons w rest ih =>
      rw [List.foldl_cons, ih]
      exact overwrite_cons new old w rest

theorem overwrite_finRange : overwrite new old (List.finRange m) = new :=
  funext (fun i => if_pos (List.mem_finRange i))

theorem update_written {written : Fin m -> Bool} {data : Fin m -> α}
    (h : forall j, written j = true -> data j = new j) (i : Fin m) :
    forall j, Function.update written i true j = true ->
      Function.update data i (new i) j = new j := by
  intro j hj
  rcases eq_or_ne j i with rfl | hne
  · rw [Function.update_self]
  · rw [Function.update_of_ne hne] at hj ⊢
    exact h j hj

/-- With one word more, the words that are not written are still those of `old`. -/
theorem update_unwritten (written : Fin m -> Bool) (i : Fin m) :
    Function.update (fun j => if written j then new j else old j) i (new i) =
      fun j => if Function.update written i true j then new j else old j := by
  funext j
  rcases eq_or_ne j i with rfl | hne
  · rw [Function.update_self, Function.update_self, if_pos rfl]
  · rw [Function.update_of_ne hne, Function.update_of_ne hne]

end Overwrite

end LowLatency
