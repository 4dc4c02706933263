import LowLatency.Spmc.Reader

/-!
# Accounting for positions

The results of a reader chain up: each read starts where the one before it left
the cursor.  From the chain follow the sum of the results, the order of the
values and the gaps between them.
-/

namespace LowLatency
namespace Spmc

open Foundation

variable {W m : Nat} {Word : Type _}

namespace ReadRecord

def next (e : ReadRecord W m Word) : Nat :=
  match e.result with
  | ReadResult.value _ => e.position + 1
  | ReadResult.empty => e.position
  | ReadResult.lapped skipped => e.position + skipped.toNat

def isValue (e : ReadRecord W m Word) : Bool :=
  e.result.value?.isSome

def skipped (e : ReadRecord W m Word) : Nat :=
  match e.result with
  | ReadResult.lapped skipped => skipped.toNat
  | _ => 0

theorem next_of_isValue {e : ReadRecord W m Word} (h : e.isValue = true) :
    e.next = e.position + 1 := by
  cases hresult : e.result with
  | value v => rw [next, hresult]
  | empty =>
      rw [isValue, hresult] at h
      cases h
  | lapped skipped =>
      rw [isValue, hresult] at h
      cases h

theorem next_of_not_isValue {e : ReadRecord W m Word}
    (h : e.isValue = false) : e.next = e.position + e.skipped := by
  cases hresult : e.result with
  | value v =>
      rw [isValue, hresult] at h
      cases h
  | empty => simp only [next, skipped, hresult, Nat.add_zero]
  | lapped k => rw [next, skipped, hresult]

theorem skipped_of_isValue {e : ReadRecord W m Word} (h : e.isValue = true) :
    e.skipped = 0 := by
  cases hresult : e.result with
  | value v => rw [skipped, hresult]
  | empty => rw [skipped, hresult]
  | lapped k =>
      rw [isValue, hresult] at h
      cases h

end ReadRecord

def valueCount (log : List (ReadRecord W m Word)) : Nat :=
  log.countP ReadRecord.isValue

def skippedSum (log : List (ReadRecord W m Word)) : Nat :=
  (log.map ReadRecord.skipped).sum

def valuePositions (log : List (ReadRecord W m Word)) : List Nat :=
  (log.filter ReadRecord.isValue).map ReadRecord.position

def Chained : Nat -> List (ReadRecord W m Word) -> Nat -> Prop
  | a, [], b => a = b
  | a, e :: rest, b => e.position = a ∧ Chained e.next rest b

namespace Chained

variable {a b : Nat} {e : ReadRecord W m Word}
variable {log before after : List (ReadRecord W m Word)}

theorem append_iff :
    Chained a (before ++ after) b <->
      exists mid, Chained a before mid ∧ Chained mid after b := by
  induction before generalizing a with
  | nil =>
      constructor
      · intro h
        exact ⟨a, rfl, h⟩
      · rintro ⟨mid, rfl, h⟩
        exact h
  | cons e rest ih =>
      constructor
      · rintro ⟨hposition, hrest⟩
        rcases ih.mp hrest with ⟨mid, hbefore, hafter⟩
        exact ⟨mid, ⟨hposition, hbefore⟩, hafter⟩
      · rintro ⟨mid, ⟨hposition, hbefore⟩, hafter⟩
        exact ⟨hposition, ih.mpr ⟨mid, hbefore, hafter⟩⟩

theorem snoc (h : Chained a log e.position) {b : Nat} (hb : e.next = b) :
    Chained a (log ++ [e]) b :=
  append_iff.mpr ⟨e.position, h, rfl, hb⟩

/-- Every position is covered once, by a value or by a skipped count. -/
theorem total (h : Chained a log b) :
    b = a + valueCount log + skippedSum log := by
  induction log generalizing a with
  | nil => exact h.symm
  | cons e rest ih =>
      rcases h with ⟨hposition, hrest⟩
      have hsum := ih hrest
      cases hvalue : e.isValue with
      | true =>
          rw [ReadRecord.next_of_isValue hvalue] at hsum
          have hskipped := ReadRecord.skipped_of_isValue hvalue
          simp only [valueCount, skippedSum, List.countP_cons, List.map_cons,
            List.sum_cons, hvalue, if_true] at hsum ⊢
          lia
      | false =>
          rw [ReadRecord.next_of_not_isValue hvalue] at hsum
          simp only [valueCount, skippedSum, List.countP_cons, List.map_cons,
            List.sum_cons, hvalue, Bool.false_eq_true, if_false] at hsum ⊢
          lia

theorem le (h : Chained a log b) : a ≤ b := by
  have hsum := h.total
  lia

theorem le_position (h : Chained a log b) (he : e ∈ log) :
    a ≤ e.position := by
  rcases List.append_of_mem he with ⟨before, after, rfl⟩
  rcases append_iff.mp h with ⟨mid, hbefore, hposition, _⟩
  rw [hposition]
  exact hbefore.le

theorem positions_of_progress {p : ReadRecord W m Word -> Bool}
    (h : Chained a log b)
    (hp : forall e, e ∈ log -> p e = true -> e.position < e.next) :
    ((log.filter p).map ReadRecord.position).Pairwise
      (fun p q => p < q) := by
  induction log generalizing a with
  | nil => exact List.Pairwise.nil
  | cons e rest ih =>
      rcases h with ⟨_, hrest⟩
      have ih := ih hrest (fun e' he' => hp e' (List.mem_cons_of_mem e he'))
      cases hmoves : p e with
      | false =>
          rw [List.filter_cons_of_neg (by simp [hmoves])]
          exact ih
      | true =>
          rw [List.filter_cons_of_pos hmoves, List.map_cons]
          refine List.Pairwise.cons ?_ ih
          intro q hq
          rcases List.mem_map.mp hq with ⟨e', he', rfl⟩
          have hle := hrest.le_position (List.mem_filter.mp he').left
          exact Nat.lt_of_lt_of_le (hp e List.mem_cons_self hmoves) hle

theorem positions_increasing (h : Chained a log b) :
    (valuePositions log).Pairwise (fun p q => p < q) := by
  apply h.positions_of_progress
  intro e _ hvalue
  rw [ReadRecord.next_of_isValue hvalue]
  exact Nat.lt_succ_self _

/-- The skipped counts between two consecutive values fill the gap. -/
theorem gap {e' : ReadRecord W m Word}
    {mid : List (ReadRecord W m Word)}
    (h : Chained a (before ++ e :: (mid ++ e' :: after)) b)
    (he : e.isValue = true) (hmid : valueCount mid = 0) :
    e'.position = e.position + 1 + skippedSum mid := by
  rcases append_iff.mp h with ⟨_, _, _, hrest⟩
  rcases append_iff.mp hrest with ⟨_, hchain, hposition, _⟩
  have hsum := hchain.total
  rw [hmid, ReadRecord.next_of_isValue he] at hsum
  rw [hposition]
  exact hsum

/--
Without skipped positions the values are the published ones from the first
cursor to the last.
-/
theorem values {published : List (Payload m Word)} (h : Chained a log b)
    (hlog : forall e, e ∈ log -> e.result = ReadResult.empty ∨
      exists v, e.result = ReadResult.value v ∧
        published[e.position]? = some v) :
    log.filterMap (fun e => e.result.value?) =
      (published.drop a).take (b - a) := by
  induction log generalizing a with
  | nil =>
      cases h
      rw [Nat.sub_self, List.take_zero]
      rfl
  | cons e rest ih =>
      rcases h with ⟨rfl, hrest⟩
      have hle := hrest.le
      have ih := ih hrest (fun e' he' => hlog e' (List.mem_cons_of_mem e he'))
      rcases hlog e List.mem_cons_self with hempty | ⟨v, hvalue, hget⟩
      · have hnext : e.next = e.position := by rw [ReadRecord.next, hempty]
        rw [List.filterMap_cons_none (by rw [hempty]; rfl), ih, hnext]
      · have hnext : e.next = e.position + 1 := by
          rw [ReadRecord.next, hvalue]
        rw [hnext] at hle ih
        rcases List.getElem?_eq_some_iff.mp hget with ⟨hlt, hv⟩
        rw [List.filterMap_cons_some (by rw [hvalue]; rfl), ih,
          List.drop_eq_getElem_cons hlt, hv,
          show b - e.position = (b - (e.position + 1)) + 1 by lia,
          List.take_succ_cons]

end Chained

/-!
## Readers that stay close enough
-/

namespace Reader

variable {r r' : Reader W m Word} {g : Progress}

/-- Every call has returned before the producer was `bound` ahead of it. -/
def LagBelow (r : Reader W m Word) (bound : Nat) : Prop :=
  forall e, e ∈ r.log -> e.progress.completed < e.position + bound

def Accounted (r : Reader W m Word) : Prop :=
  r.LagBelow (2 ^ W) -> Chained r.start r.log r.position

theorem LagBelow.mono {bound bound' : Nat} (h : r.LagBelow bound)
    (hle : bound ≤ bound') : r.LagBelow bound' :=
  fun e he => Nat.lt_of_lt_of_le (h e he) (Nat.add_le_add_left hle _)

namespace Accounted

theorem new (W m : Nat) (Word : Type _) : Accounted (Reader.new W m Word) :=
  fun _ => rfl

theorem clone (h : r.clone = some r') : Accounted r' := by
  rcases clone_inv h with ⟨_, rfl⟩
  intro _
  exact Eq.refl r.position

theorem of_log {start position : Nat} {log : List (ReadRecord W m Word)}
    {e : ReadRecord W m Word}
    (hr : (forall e, e ∈ log -> e.progress.completed < e.position + 2 ^ W) ->
      Chained start log e.position)
    (hnext : e.progress.completed < e.position + 2 ^ W -> e.next = position)
    (hlag : forall e', e' ∈ log ++ [e] ->
      e'.progress.completed < e'.position + 2 ^ W) :
    Chained start (log ++ [e]) position := by
  refine Chained.snoc (hr ?_) (hnext (hlag e (by simp)))
  intro e' he'
  exact hlag e' (List.mem_append_left _ he')

theorem beginCall (hr : Accounted r) (h : r.beginCall g = some r') :
    Accounted r' := by
  rcases beginCall_inv h with ⟨_, rfl⟩
  exact hr

theorem gotWriteCursor {visible n : Nat} (hr : Accounted r)
    (hcursors : Cursors r visible) (hn : visible ≤ n)
    (hcompleted : n ≤ g.completed)
    (h : r.gotWriteCursor g n (BitVec.ofNat W n) = some r') :
    Accounted r' := by
  rcases gotWriteCursor_inv h with ⟨_, _, rfl⟩ | ⟨_, _, rfl⟩ | ⟨hpc, rfl⟩
  · exact of_log hr (fun _ => rfl)
  · exact hr
  · refine of_log hr ?_
    intro hlag
    have hlt := hcursors.past (by rw [hpc]; rfl)
    have hcached := hcursors.cached_le
    dsimp only at hlag
    dsimp only [ReadRecord.next]
    rw [hcursors.state, Words.ofNat_sub_ofNat (show 1 ≤ n by lia),
      Words.ofNat_sub_ofNat (by lia), BitVec.toNat_ofNat, Nat.mod_eq_of_lt (by lia)]
    lia

theorem gotSeq (hr : Accounted r) {seq : BitVec W}
    (h : r.gotSeq g seq = some r') : Accounted r' := by
  rcases gotSeq_inv h with ⟨stats, hcases⟩
  rcases hcases with ⟨_, _, rfl⟩ | ⟨_, _, _, rfl⟩ | ⟨_, _, rfl⟩ |
    ⟨_, _, _, _, rfl⟩ | ⟨_, _, _, _, rfl⟩
  · exact hr
  · exact hr
  · exact hr
  · exact of_log hr (fun _ => rfl)
  · exact hr

theorem gotWord (hr : Accounted r) {i : Fin m} {word : Word}
    (h : r.gotWord i word = some r') : Accounted r' := by
  rcases gotWord_inv h with ⟨_, _, _, _, rfl⟩
  exact hr

end Accounted

theorem gotWriteCursor_position_le {visible n : Nat}
    (hcursors : Cursors r visible) (hn : visible ≤ n)
    {writeCursor : BitVec W}
    (h : r.gotWriteCursor g n writeCursor = some r') :
    r.position ≤ r'.position := by
  rcases gotWriteCursor_inv h with ⟨_, _, rfl⟩ | ⟨_, _, rfl⟩ | ⟨hpc, rfl⟩
  · exact Nat.le_refl _
  · exact Nat.le_refl _
  · have hlt := hcursors.past (by rw [hpc]; rfl)
    have hcached := hcursors.cached_le
    dsimp only
    lia

theorem gotSeq_position_le {seq : BitVec W} (h : r.gotSeq g seq = some r') :
    r.position ≤ r'.position := by
  rcases gotSeq_inv h with ⟨stats, hcases⟩
  rcases hcases with ⟨_, _, rfl⟩ | ⟨_, _, _, rfl⟩ | ⟨_, _, rfl⟩ |
    ⟨_, _, _, _, rfl⟩ | ⟨_, _, _, _, rfl⟩
  · exact Nat.le_refl _
  · exact Nat.le_refl _
  · exact Nat.le_refl _
  · exact Nat.le_succ _
  · exact Nat.le_refl _

end Reader
end Spmc
end LowLatency
