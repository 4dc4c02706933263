import LowLatency.Seqlock.Retries

/-!
# Reads that nothing disturbs

While no write is in progress the lock stays as it is.  A read that is called
then copies the payload once and returns, whatever the other readers do in
between.
-/

namespace LowLatency
namespace Seqlock

open Foundation

namespace System

variable {Id : Type _} {m : Nat} {Word : Type _}
variable {s s' : System Id m Word}

/-!
## The steps of one iteration
-/

def copySteps (words : List (Fin m)) : List (ReadAction m) :=
  ReadAction.call :: ReadAction.loadSeq :: words.map ReadAction.loadWord

def oneIteration (words : List (Fin m)) : List (ReadAction m) :=
  copySteps words ++ [ReadAction.fence, ReadAction.loadSeq]

def ReturnedSince (i : Id) (n : Nat) (s : System Id m Word)
    (P : ReadRecord Id m Word -> Prop) : Prop :=
  exists e, e ∈ s.returns.drop n ∧ e.reader = i ∧ P e

/-- Where the own steps of a read have led it while `seq` stayed the same. -/
inductive FirstIteration (seq : BitVec 64) :
    List (ReadAction m) -> ReadPc m Word -> Prop where
  | idle : FirstIteration seq [] ReadPc.idle
  | loadSeq : FirstIteration seq [ReadAction.call] ReadPc.loadSeq
  | readData (words : List (Fin m)) (copied : Fin m -> Option Word)
      (hnodup : words.Nodup)
      (hcopied : forall i, i ∈ words <-> copied i ≠ none) :
      FirstIteration seq (copySteps words) (ReadPc.readData seq copied)
  | reloadSeq (words : List (Fin m)) (readAttempt : Payload m Word)
      (hperm : words.Perm (List.finRange m)) :
      FirstIteration seq (copySteps words ++ [ReadAction.fence])
        (ReadPc.reloadSeq seq readAttempt)
  | returned (words : List (Fin m)) (hperm : words.Perm (List.finRange m)) :
      FirstIteration seq (oneIteration words) ReadPc.idle

theorem length_oneIteration {words : List (Fin m)}
    (hperm : words.Perm (List.finRange m)) :
    (oneIteration words).length = m + 4 := by
  simp [oneIteration, copySteps, hperm.length_eq]

structure Undisturbed (l : SeqLock m Word) (i : Id) (n : Nat)
    (own : List (ReadAction m)) (s : System Id m Word) : Prop where
  writer : s.writePc = WritePc.idle
  lock : s.lock = l
  returns : n ≤ s.returns.length
  pc : FirstIteration l.seq own (s.readers i).pc
  discarded : own ≠ [] -> (s.readers i).call.discarded = 0
  returned : own.length = m + 4 ->
    ReturnedSince i n s (fun e => e.call.discarded = 0)

theorem ReturnedSince.append {i : Id} {n : Nat}
    {P : ReadRecord Id m Word -> Prop} (hs : ReturnedSince i n s P)
    (h : exists more, s'.returns = s.returns ++ more) :
    ReturnedSince i n s' P := by
  rcases hs with ⟨e, he, hreader, hP⟩
  rcases h with ⟨more, hmore⟩
  refine ⟨e, ?_, hreader, hP⟩
  rw [hmore, List.drop_append]
  exact List.mem_append_left _ he

theorem ReturnedSince.last {i : Id} {n : Nat}
    {P : ReadRecord Id m Word -> Prop} {e : ReadRecord Id m Word}
    (hn : n ≤ s.returns.length) (h : s'.returns = s.returns ++ [e])
    (hreader : e.reader = i) (hP : P e) : ReturnedSince i n s' P := by
  refine ⟨e, ?_, hreader, hP⟩
  rw [h, List.drop_append_of_le_length hn]
  exact List.mem_append_right _ List.mem_cons_self

namespace Undisturbed

variable {l : SeqLock m Word} {i : Id} {n : Nat} {own : List (ReadAction m)}

theorem own_step (hs : Undisturbed l i n own s) {b : ReadAction m}
    {pc : ReadPc m Word} {call : ReadCall}
    (hpc : FirstIteration l.seq (own ++ [b]) pc)
    (hshort : (own ++ [b]).length < m + 4) (hdiscarded : call.discarded = 0)
    (hwriter : s'.writePc = s.writePc) (hlock : s'.lock = s.lock)
    (hreturns : s'.returns = s.returns)
    (hreader : s'.readers i = ⟨pc, call⟩) :
    Undisturbed l i n (own ++ [b]) s' := by
  constructor
  · rw [hwriter]
    exact hs.writer
  · rw [hlock]
    exact hs.lock
  · rw [hreturns]
    exact hs.returns
  · rw [hreader]
    exact hpc
  · intro _
    rw [hreader]
    exact hdiscarded
  · intro hlength
    lia

/-- After `m + 4` own steps the read has returned from its first iteration. -/
theorem whole (hs : Undisturbed l i n own s) (hlength : own.length = m + 4) :
    (exists words, words.Perm (List.finRange m) ∧ own = oneIteration words) ∧
      (s.readers i).pc = ReadPc.idle ∧
      ReturnedSince i n s (fun e => e.call.discarded = 0) := by
  have hreturned := hs.returned hlength
  have hfirst := hs.pc
  generalize hpc : (s.readers i).pc = pc at hfirst
  cases hfirst with
  | idle => cases hlength
  | loadSeq => simp at hlength
  | readData words copied hnodup hcopied =>
      have hcard := hnodup.length_le_card
      rw [Fintype.card_fin] at hcard
      simp [copySteps] at hlength
      lia
  | reloadSeq words attempt hperm =>
      simp [copySteps, hperm.length_eq] at hlength
  | returned words hperm => exact ⟨⟨words, hperm, rfl⟩, rfl, hreturned⟩

end Undisturbed

/-!
## Steps while no write begins
-/

variable [DecidableEq Id]

def stepsOf (i : Id) (actions : List (Action Id m Word)) :
    List (ReadAction m) :=
  actions.filterMap (fun a =>
    match a with
    | Action.read j b => if j = i then some b else none
    | _ => none)

theorem exists_read_of_step (hidle : s.writePc = WritePc.idle)
    {a : Action Id m Word} (hquiet : forall value, a ≠ Action.writeCall value)
    (h : s.step a = some s') : exists j b, a = Action.read j b := by
  cases a with
  | writeCall value => exact absurd rfl (hquiet value)
  | writeStoreOdd =>
      rcases writeStoreOdd_inv h with ⟨s₀, value, hpc, _⟩
      rw [hidle] at hpc
      cases hpc
  | writeFence =>
      rcases writeFence_inv h with ⟨s₀, value, hpc, _⟩
      rw [hidle] at hpc
      cases hpc
  | writeWord w =>
      rcases writeWord_inv h with ⟨s₀, value, written, hpc, _⟩
      rw [hidle] at hpc
      cases hpc
  | writeStoreEven =>
      rcases writeStoreEven_inv h with ⟨s₀, value, written, hpc, _⟩
      rw [hidle] at hpc
      cases hpc
  | read j b => exact ⟨j, b, rfl⟩

theorem read_frame {j : Id} {b : ReadAction m} (h : s.read j b = some s') :
    s'.lock = s.lock ∧ s'.writePc = s.writePc ∧
      (exists more, s'.returns = s.returns ++ more) ∧
      forall i, i ≠ j -> s'.readers i = s.readers i := by
  have hnone : exists more, s.returns = s.returns ++ more :=
    ⟨[], (List.append_nil _).symm⟩
  cases b with
  | call =>
      rcases readCall_inv h with ⟨_, rfl⟩
      exact ⟨rfl, rfl, hnone, fun _ hne => setReader_of_ne s hne _⟩
  | loadSeq =>
      rcases readLoadSeq_inv h with ⟨pc, _, rfl⟩ | ⟨pc, v, _, rfl⟩
      · exact ⟨rfl, rfl, hnone, fun _ hne => setReader_of_ne s hne _⟩
      · exact ⟨rfl, rfl, ⟨_, rfl⟩, fun _ hne => setReader_of_ne s hne _⟩
  | loadWord w =>
      rcases readLoadWord_inv h with ⟨pc, _, rfl⟩
      exact ⟨rfl, rfl, hnone, fun _ hne => setReader_of_ne s hne _⟩
  | fence =>
      rcases readFence_inv h with ⟨pc, _, rfl⟩
      exact ⟨rfl, rfl, hnone, fun _ hne => setReader_of_ne s hne _⟩

namespace Undisturbed

variable {l : SeqLock m Word} {i : Id} {n : Nat} {own : List (ReadAction m)}

theorem other (hs : Undisturbed l i n own s) {j : Id} {b : ReadAction m}
    (hne : j ≠ i) (h : s.read j b = some s') : Undisturbed l i n own s' := by
  rcases read_frame h with ⟨hlock, hpc, hreturns, hreaders⟩
  have hsame := hreaders i hne.symm
  constructor
  · rw [hpc]
    exact hs.writer
  · rw [hlock]
    exact hs.lock
  · rcases hreturns with ⟨more, hmore⟩
    rw [hmore, List.length_append]
    exact Nat.le_add_right_of_le hs.returns
  · rw [hsame]
    exact hs.pc
  · rw [hsame]
    exact hs.discarded
  · intro hlength
    exact (hs.returned hlength).append hreturns

theorem call (hs : Undisturbed l i n own s)
    (hshort : (own ++ [ReadAction.call]).length ≤ m + 4)
    (h : s.readCall i = some s') :
    Undisturbed l i n (own ++ [ReadAction.call]) s' := by
  have hfirst := hs.pc
  rcases readCall_inv h with ⟨hpc, rfl⟩
  rw [hpc] at hfirst
  cases hfirst with
  | idle =>
      refine hs.own_step FirstIteration.loadSeq ?_ rfl rfl rfl rfl
        (setReader_self s i _)
      simp
  | returned words hperm =>
      rw [List.length_append, length_oneIteration hperm] at hshort
      simp at hshort

theorem loadSeq (hw : WriterOk s) (hs : Undisturbed l i n own s)
    (h : s.readLoadSeq i = some s') :
    Undisturbed l i n (own ++ [ReadAction.loadSeq]) s' := by
  have hfirst := hs.pc
  have hlock := hs.lock
  rcases readLoadSeq_inv h with ⟨pc, hgot, rfl⟩ | ⟨pc, v, hgot, rfl⟩
  · rcases ReadPc.gotSeq_inv hgot with ⟨_, hodd, _⟩ | ⟨hpc, _, rfl, _⟩ |
      ⟨_, _, _, hout⟩ | ⟨s1, readAttempt, hpc, hne, _⟩
    · have hopened := opened_of_odd hw hodd
      rw [hs.writer] at hopened
      cases hopened
    · rw [hpc] at hfirst
      cases hfirst with
      | loadSeq =>
          have hdiscarded := hs.discarded (by simp)
          rw [hpc]
          refine hs.own_step ?_ ?_ hdiscarded rfl rfl rfl
            (setReader_self s i _)
          · rw [hlock]
            apply FirstIteration.readData [] _ List.nodup_nil
            intro w
            simp
          · simp
    · cases hout
    · -- `seq` is still `s1`
      rw [hpc] at hfirst
      cases hfirst with
      | reloadSeq words readAttempt hperm =>
          rw [hlock] at hne
          exact absurd rfl hne
  · rcases ReadPc.gotSeq_inv hgot with ⟨_, _, _, hout⟩ | ⟨_, _, _, hout⟩ |
      ⟨readAttempt, hpc, rfl, _⟩ | ⟨_, _, _, _, _, hout⟩
    · cases hout
    · cases hout
    · rw [hpc, hlock] at hfirst
      cases hfirst with
      | reloadSeq words readAttempt hperm =>
          have hdiscarded := hs.discarded (by simp [copySteps])
          have hwhole : copySteps words ++ [ReadAction.fence] ++
              [ReadAction.loadSeq] = oneIteration words :=
            List.append_assoc _ _ _
          rw [hwhole]
          constructor
          · exact hs.writer
          · exact hlock
          · dsimp only
            rw [List.length_append]
            exact Nat.le_add_right_of_le hs.returns
          · dsimp only
            rw [setReader_self]
            exact FirstIteration.returned words hperm
          · intro _
            dsimp only
            rw [setReader_self]
            exact hdiscarded
          · intro _
            exact ReturnedSince.last hs.returns rfl rfl hdiscarded
    · cases hout

theorem loadWord (hs : Undisturbed l i n own s) {w : Fin m}
    (h : s.readLoadWord i w = some s') :
    Undisturbed l i n (own ++ [ReadAction.loadWord w]) s' := by
  have hfirst := hs.pc
  rcases readLoadWord_inv h with ⟨pc, hgot, rfl⟩
  rcases ReadPc.gotWord_inv hgot with ⟨s1, copied, hpc, hnone, rfl⟩
  rw [hpc] at hfirst
  cases hfirst with
  | readData words copied hnodup hcopied =>
      have hnew : w ∉ words := by
        intro hmem
        exact (hcopied w).mp hmem hnone
      have hnodup' : (words ++ [w]).Nodup := by
        rw [← List.concat_eq_append]
        exact (List.nodup_concat words w).mpr ⟨hnew, hnodup⟩
      have hlength : (words ++ [w]).length ≤ m := by
        have hcard := hnodup'.length_le_card
        rw [Fintype.card_fin] at hcard
        exact hcard
      have hsteps : copySteps words ++ [ReadAction.loadWord w] =
          copySteps (words ++ [w]) := by
        rw [copySteps, copySteps, List.map_append]
        rfl
      refine hs.own_step ?_ ?_ (hs.discarded (by simp [copySteps])) rfl rfl rfl
        (setReader_self s i _)
      · rw [hsteps]
        apply FirstIteration.readData _ _ hnodup'
        intro v
        rw [List.mem_append, List.mem_singleton]
        rcases eq_or_ne v w with rfl | hne
        · rw [Function.update_self]
          simp
        · rw [Function.update_of_ne hne, ← hcopied v]
          simp [hne]
      · rw [List.length_append, List.length_singleton] at hlength
        rw [hsteps]
        simp only [copySteps, List.length_append, List.length_cons,
          List.length_map, List.length_nil]
        lia

theorem fence (hs : Undisturbed l i n own s) (h : s.readFence i = some s') :
    Undisturbed l i n (own ++ [ReadAction.fence]) s' := by
  have hfirst := hs.pc
  rcases readFence_inv h with ⟨pc, hfence, rfl⟩
  rcases ReadPc.fence_inv hfence with ⟨s1, copied, attempt, hpc, hcollect, rfl⟩
  rw [hpc] at hfirst
  cases hfirst with
  | readData words copied hnodup hcopied =>
      have hperm : words.Perm (List.finRange m) := by
        apply (List.perm_ext_iff_of_nodup hnodup
          (List.nodup_finRange m)).mpr
        intro w
        constructor
        · intro _
          exact List.mem_finRange w
        · intro _
          apply (hcopied w).mpr
          rw [collect_eq_some_iff.mp hcollect w]
          exact Option.some_ne_none _
      refine hs.own_step ?_ ?_ (hs.discarded (by simp [copySteps])) rfl rfl rfl
        (setReader_self s i _)
      · exact FirstIteration.reloadSeq words attempt hperm
      · simp [copySteps, hperm.length_eq]

theorem step (hw : WriterOk s) (hs : Undisturbed l i n own s)
    {a : Action Id m Word}
    (hshort : (own ++ stepsOf i [a]).length ≤ m + 4)
    (hquiet : forall value, a ≠ Action.writeCall value)
    (h : s.step a = some s') :
    Undisturbed l i n (own ++ stepsOf i [a]) s' := by
  rcases exists_read_of_step hs.writer hquiet h with ⟨j, b, rfl⟩
  by_cases hj : j = i
  · subst hj
    have hstep : stepsOf j [(Action.read j b : Action Id m Word)] = [b] := by
      simp [stepsOf]
    rw [hstep] at hshort ⊢
    cases b with
    | call => exact hs.call hshort h
    | loadSeq => exact hs.loadSeq hw h
    | loadWord w => exact hs.loadWord h
    | fence => exact hs.fence h
  · have hstep : stepsOf i [(Action.read j b : Action Id m Word)] = [] := by
      simp [stepsOf, hj]
    rw [hstep, List.append_nil]
    exact hs.other hj h

theorem stepsOf_append (i : Id) (first second : List (Action Id m Word)) :
    stepsOf i (first ++ second) = stepsOf i first ++ stepsOf i second :=
  List.filterMap_append

theorem runFrom {initialValue : Payload m Word}
    (hreach : (machine Id initialValue).Reachable s)
    (hwriter : s.writePc = WritePc.idle)
    (hidle : (s.readers i).pc = ReadPc.idle) {actions : List (Action Id m Word)}
    (h : (machine Id initialValue).runFrom s actions = some s')
    (hquiet : forall value, Action.writeCall value ∉ actions)
    (hshort : (stepsOf i actions).length ≤ m + 4) :
    Undisturbed s.lock i s.returns.length (stepsOf i actions) s' := by
  have hstart : Undisturbed s.lock i s.returns.length [] s := by
    constructor
    · exact hwriter
    · rfl
    · exact Nat.le_refl _
    · rw [hidle]
      exact FirstIteration.idle
    · intro hne
      exact absurd rfl hne
    · intro hlength
      cases hlength
  have hrun := Machine.runFrom_invariant_of_actions
    (P := fun before t => (machine Id initialValue).Reachable t ∧
      ((forall value, Action.writeCall value ∉ before) ->
        (stepsOf i before).length ≤ m + 4 ->
        Undisturbed s.lock i s.returns.length (stepsOf i before) t))
    ?_ [] ⟨hreach, fun _ _ => hstart⟩ h
  · exact hrun.right hquiet hshort
  · intro before t a t' hbefore ha
    exists hbefore.left.step ha
    intro hquiet hshort
    rw [stepsOf_append] at hshort ⊢
    have hfirst : (stepsOf i before).length ≤ m + 4 := by
      rw [List.length_append] at hshort
      lia
    have hold := hbefore.right
      (fun value hmem => hquiet value (List.mem_append_left _ hmem)) hfirst
    apply hold.step (WriterOk.reachable hbefore.left) hshort ?_ ha
    intro value heq
    apply hquiet value
    rw [heq]
    exact List.mem_append_right _ List.mem_cons_self

end Undisturbed
end System
end Seqlock
end LowLatency
