import LowLatency.Spmc.Loss

/-!
# Recovery from a lap

A lapped read jumps to the position before the last `write_cursor`.  It moves
on unless the ring has one slot and the producer stands between the even store
and the `write_cursor` store of the position after the cursor: then the cursor
stays where it is, and the next read is lapped again.
-/

namespace LowLatency
namespace Spmc

open Foundation

namespace System

variable {W : Nat} {cap : Capacity W} {m : Nat} {Word : Type _}
variable {s s' : System cap m Word}

/-!
## Finished reads

A property of the results holds of every finished read when it holds of the
three ways to finish one.
-/

/-- `P` holds of each read that a reader can finish in the state `s`. -/
structure Finishes (P : ReadRecord W m Word -> Prop) (s : System cap m Word)
    (r : Reader W m Word) : Prop where
  empty : r.thread.pc = ReadPc.loadWriteCursor ->
    r.thread.state.readCursor = s.queue.writeCursor ->
      P ⟨r.position, ReadResult.empty, s.progress⟩
  lapped : r.thread.pc = ReadPc.reloadWriteCursor ->
    P ⟨r.position, ReadResult.lapped
      (s.queue.writeCursor - 1#W - r.thread.state.readCursor), s.progress⟩
  value : forall seq1 copied v, r.thread.pc = ReadPc.readData seq1 copied ->
    collect copied = some v -> P ⟨r.position, ReadResult.value v, s.progress⟩

theorem Finishes.readStep {P : ReadRecord W m Word -> Prop}
    {r r' : Reader W m Word} (hP : Finishes P s r)
    (hlog : forall e, e ∈ r.log -> P e) {a : ReadAction m}
    (h : s.readStep r a = some r') : forall e, e ∈ r'.log -> P e := by
  have hnew : forall e, P e -> forall e', e' ∈ r.log ++ [e] -> P e' := by
    intro e he e' hmem
    rcases List.mem_append.mp hmem with hold | hlast
    · exact hlog e' hold
    · rw [List.mem_singleton.mp hlast]
      exact he
  cases a with
  | call =>
      rcases Reader.beginCall_inv h with ⟨_, rfl⟩
      exact hlog
  | loadWriteCursor =>
      rcases Reader.gotWriteCursor_inv h with ⟨hpc, hempty, rfl⟩ |
        ⟨_, _, rfl⟩ | ⟨hpc, rfl⟩
      · exact hnew _ (hP.empty hpc hempty)
      · exact hlog
      · exact hnew _ (hP.lapped hpc)
  | loadSeq =>
      rcases Reader.gotSeq_inv h with ⟨stats, hcases⟩
      rcases hcases with ⟨_, _, rfl⟩ | ⟨_, _, _, rfl⟩ | ⟨_, _, rfl⟩ |
        ⟨copied, v, hpc, hcollect, rfl⟩ | ⟨_, _, _, _, rfl⟩
      · exact hlog
      · exact hlog
      · exact hlog
      · exact hnew _ (hP.value _ copied v hpc hcollect)
      · exact hlog
  | loadWord i =>
      rcases Reader.gotWord_inv h with ⟨_, _, _, _, rfl⟩
      exact hlog

theorem log_invariant [Zero Word] {P : ReadRecord W m Word -> Prop}
    (hfinish : forall s : System cap m Word, (machine cap m Word).Reachable s ->
      forall c r, s.readers c = some r -> Finishes P s r)
    (hs : (machine cap m Word).Reachable s) :
    forall c r, s.readers c = some r -> forall e, e ∈ r.log -> P e := by
  apply hs.invariant_of_reachable (P := fun s => forall c r,
    s.readers c = some r -> forall e, e ∈ r.log -> P e)
  · intro c r hr e he
    rw [readers_new hr] at he
    cases he
  · intro s a s' hreach hlogs h c r' hr'
    rcases step_readers h hr' with hold | ⟨r, b, hr, hstep⟩ |
      ⟨_, r, _, _, hclone⟩
    · exact hlogs c r' hold
    · exact (hfinish s hreach c r hr).readStep (hlogs c r hr) hstep
    · rcases Reader.clone_inv hclone with ⟨_, rfl⟩
      intro e he
      cases he

/-!
## Jumps
-/

/-- Where a lapped read went, and how far the producer was by then. -/
structure Jumped (e : ReadRecord W m Word) : Prop where
  ahead : forall skipped, e.result = ReadResult.lapped skipped ->
    e.position < e.progress.completed
  skipped : forall skipped, e.result = ReadResult.lapped skipped ->
    skipped = BitVec.ofNat W (e.progress.completed - 1 - e.position)
  stamped : e.progress.stamped ≤ e.progress.completed + 1

theorem stamped_le_completed_succ (s : System cap m Word) :
    s.stamped ≤ s.completed + 1 := by
  have hone : s.publishPc.stamped ≤ 1 :=
    Nat.le_trans s.publishPc.stamped_le_opened s.publishPc.opened_le_one
  exact Nat.add_le_add_left hone s.completed

theorem jumped_of_finishes [Zero Word] (hring : Ring s)
    {r : Reader W m Word} (hr : ReaderOk s r) : Finishes Jumped s r := by
  have hstamped := stamped_le_completed_succ s
  constructor
  · intro _ _
    refine ⟨?_, ?_, hstamped⟩
    · intro _ hlapped
      cases hlapped
    · intro _ hlapped
      cases hlapped
  · intro hpc
    have hpast := hr.cursors.past (by rw [hpc]; rfl)
    have hlt := Nat.lt_of_lt_of_le hpast hr.cursors.cached_le
    refine ⟨fun _ _ => hlt, ?_, hstamped⟩
    intro skipped hlapped
    cases hlapped
    rw [hring.cursor, hr.cursors.state,
      Words.ofNat_sub_ofNat (show 1 ≤ s.completed by lia),
      Words.ofNat_sub_ofNat (show r.position ≤ s.completed - 1 by lia)]
    rfl
  · intro _ _ _ _ _
    refine ⟨?_, ?_, hstamped⟩
    · intro _ hlapped
      cases hlapped
    · intro _ hlapped
      cases hlapped

theorem jumped_of_reachable [Zero Word]
    (hs : (machine cap m Word).Reachable s) {c : Nat} {r : Reader W m Word}
    (hr : s.readers c = some r) {e : ReadRecord W m Word} (he : e ∈ r.log) :
    Jumped e := by
  apply log_invariant (P := Jumped) ?_ hs c r hr e he
  intro s hs c r hr
  exact jumped_of_finishes (Ring.reachable hs) (Readers.reachable hs c r hr)

/-!
## Pinned reads
-/

/--
The read reloaded `write_cursor` in a ring of one slot, after the even store
and before the `write_cursor` store of the position after its own.
-/
def Pinned (cap : Capacity W) (e : ReadRecord W m Word) : Prop :=
  cap.size = 1 ∧ e.progress.completed = e.position + 1 ∧
    e.progress.stamped = e.position + 2

section Records

variable {published : List (Payload m Word)} {e : ReadRecord W m Word}
variable {skipped : BitVec W}

theorem pinned_or_lt (he : RecordOk cap published e) (hj : Jumped e)
    (hlapped : e.result = ReadResult.lapped skipped) :
    Pinned cap e ∨ e.position + 1 < e.progress.completed := by
  rcases he.lapped skipped hlapped with ⟨p, _, hlap, hp⟩
  have hstamped := hj.stamped
  have hsize := cap.size_pos
  rcases Nat.lt_or_ge (e.position + 1) e.progress.completed with hlt | hge
  · exact Or.inr hlt
  · left
    exact ⟨by lia, by lia, by lia⟩

theorem progress_iff_not_pinned (he : RecordOk cap published e)
    (hj : Jumped e) (hlapped : e.result = ReadResult.lapped skipped)
    (hlag : e.progress.completed < e.position + 2 ^ (W - 1)) :
    (1 ≤ skipped.toNat ∧ e.position < e.next) <-> Not (Pinned cap e) := by
  have hhalf : 2 ^ (W - 1) ≤ 2 ^ W :=
    Nat.pow_le_pow_right Nat.two_pos (Nat.sub_le W 1)
  have hahead := hj.ahead skipped hlapped
  have hskipped : skipped.toNat = e.progress.completed - 1 - e.position := by
    rw [hj.skipped skipped hlapped, BitVec.toNat_ofNat, Nat.mod_eq_of_lt (by lia)]
  have hnext : e.next = e.position + skipped.toNat := by
    rw [ReadRecord.next, hlapped]
  constructor
  · rintro ⟨hone, _⟩ ⟨_, hcompleted, _⟩
    lia
  · intro hfree
    rcases pinned_or_lt he hj hlapped with hpinned | hlt
    · exact absurd hpinned hfree
    · constructor
      · lia
      · lia

end Records

def isLapped (e : ReadRecord W m Word) : Bool :=
  e.result.skipped?.isSome

theorem exists_of_isLapped {e : ReadRecord W m Word}
    (h : isLapped e = true) :
    exists skipped, e.result = ReadResult.lapped skipped := by
  rcases Option.isSome_iff_exists.mp h with ⟨skipped, hskipped⟩
  exact ⟨skipped, ReadResult.skipped?_eq_some.mp hskipped⟩

/--
A lapped read moves the cursor on and reports it exactly when it is not pinned.
Unless a read is pinned, no two lapped reads start at the same position.
-/
theorem lap_progress_iff [Zero Word]
    (hreach : (machine cap m Word).Reachable s) {c : Nat}
    {r : Reader W m Word} (hr : s.readers c = some r) :
    (forall e, e ∈ r.log -> forall skipped,
      e.result = ReadResult.lapped skipped ->
      e.progress.completed < e.position + 2 ^ (W - 1) ->
        ((1 ≤ skipped.toNat ∧ e.position < e.next) <-> Not (Pinned cap e))) ∧
    (r.LagBelow (2 ^ (W - 1)) ->
      (forall e, e ∈ r.log -> isLapped e = true -> Not (Pinned cap e)) ->
        ((r.log.filter isLapped).map ReadRecord.position).Pairwise
          (fun p q => p < q)) := by
  have hok := Readers.reachable hreach c r hr
  have hiff : forall e, e ∈ r.log -> forall skipped,
      e.result = ReadResult.lapped skipped ->
      e.progress.completed < e.position + 2 ^ (W - 1) ->
        ((1 ≤ skipped.toNat ∧ e.position < e.next) <->
          Not (Pinned cap e)) := by
    intro e he skipped
    exact progress_iff_not_pinned (hok.log e he)
      (jumped_of_reachable hreach hr he)
  constructor
  · exact hiff
  · intro hlag hfree
    have hhalf : 2 ^ (W - 1) ≤ 2 ^ W :=
      Nat.pow_le_pow_right Nat.two_pos (Nat.sub_le W 1)
    have hchain := Accounts.reachable hreach c r hr (hlag.mono hhalf)
    apply hchain.positions_of_progress
    intro e he hlapped
    rcases exists_of_isLapped hlapped with ⟨skipped, hresult⟩
    exact ((hiff e he skipped hresult (hlag e he)).mpr
      (hfree e he hlapped)).right

/-- Two publishes into one slot make the first read skip one position. -/
theorem lap_progress_iff_one_slot :
    exists s, (machine (⟨1#64, 0, rfl⟩ : Capacity 64) 1 Nat).run
        [Action.publishCall (fun _ => 10), Action.publishStoreOdd,
          Action.publishWriteWord 0, Action.publishStoreEven,
          Action.publishStoreCursor, Action.publishCall (fun _ => 20),
          Action.publishStoreOdd, Action.publishWriteWord 0,
          Action.publishStoreEven, Action.publishStoreCursor,
          Action.read 0 ReadAction.call, Action.read 0 ReadAction.loadWriteCursor,
          Action.read 0 ReadAction.loadSeq,
          Action.read 0 ReadAction.loadWriteCursor] = some s ∧
      exists r e, s.readers 0 = some r ∧ e ∈ r.log ∧
        e.result = ReadResult.lapped 1#64 ∧ e.position < e.next := by
  apply Machine.exists_run_of_map
    (fun s => (s.readers 0).bind (fun r => r.log[0]?.map (fun e =>
      (e.position, e.result.skipped?, e.progress))))
    (some (0, some 1#64, ⟨2, 2, 2⟩)) (by decide +kernel)
  intro s hrun hshown
  rcases Option.bind_eq_some_iff.mp hshown with ⟨r, hr, hread⟩
  rcases Option.map_eq_some_iff.mp hread with ⟨e, he, hfields⟩
  have hmem := List.mem_of_getElem? he
  have hposition : e.position = 0 := congrArg Prod.fst hfields
  have hlapped : e.result = ReadResult.lapped 1#64 :=
    ReadResult.skipped?_eq_some.mp
      (congrArg (fun f => f.2.1) hfields)
  have hprogress : e.progress = ⟨2, 2, 2⟩ := congrArg (fun f => f.2.2) hfields
  have hfree : Not (Pinned (⟨1#64, 0, rfl⟩ : Capacity 64) e) := by
    rintro ⟨_, hcompleted, _⟩
    rw [hprogress, hposition] at hcompleted
    cases hcompleted
  exact ⟨r, e, hr, hmem, hlapped,
    (((lap_progress_iff ⟨_, hrun⟩ hr).left e hmem 1#64 hlapped
      (by rw [hprogress, hposition]; decide)).mpr hfree).right⟩

/--
In a ring of one slot a producer that has stored the even `seq` of its second
value but not `write_cursor` makes the reader report laps of no length.
-/
theorem lapped_at_one_cursor :
    Not (forall s, (machine (⟨1#64, 0, rfl⟩ : Capacity 64) 1 Nat).Reachable s ->
      forall c r, s.readers c = some r -> forall e, e ∈ r.log ->
        forall skipped, e.result = ReadResult.lapped skipped ->
          e.progress.begun < e.position + 2 ^ 63 ->
            1 ≤ skipped.toNat ∧ e.position < e.next) := by
  intro hclaim
  have hrun : exists s, (machine (⟨1#64, 0, rfl⟩ : Capacity 64) 1 Nat).run
        [Action.publishCall (fun _ => 10), Action.publishStoreOdd,
          Action.publishWriteWord 0, Action.publishStoreEven,
          Action.publishStoreCursor, Action.publishCall (fun _ => 20),
          Action.publishStoreOdd, Action.publishWriteWord 0,
          Action.publishStoreEven,
          Action.read 0 ReadAction.call, Action.read 0 ReadAction.loadWriteCursor,
          Action.read 0 ReadAction.loadSeq,
          Action.read 0 ReadAction.loadWriteCursor,
          Action.read 0 ReadAction.call, Action.read 0 ReadAction.loadSeq,
          Action.read 0 ReadAction.loadWriteCursor] = some s ∧
      (s.readers 0).map (fun r => r.log.map (fun e =>
        (e.position, e.result.skipped?, e.progress.begun))) =
          some [(0, some 0#64, 2), (0, some 0#64, 2)] := by
    apply Machine.exists_run_of_map
      (fun s => (s.readers 0).map (fun r => r.log.map (fun e =>
        (e.position, e.result.skipped?, e.progress.begun))))
      (some [(0, some 0#64, 2), (0, some 0#64, 2)]) (by decide +kernel)
    intro s hrun hshown
    exact hshown
  rcases hrun with ⟨s, hrun, hshown⟩
  rcases Option.map_eq_some_iff.mp hshown with ⟨r, hr, hlog⟩
  have hmem : (0, some 0#64, 2) ∈ r.log.map (fun e =>
      (e.position, e.result.skipped?, e.progress.begun)) := by
    rw [hlog]
    exact List.mem_cons_self
  rcases List.mem_map.mp hmem with ⟨e, he, hfields⟩
  have hposition : e.position = 0 := congrArg Prod.fst hfields
  have hlapped : e.result = ReadResult.lapped 0#64 :=
    ReadResult.skipped?_eq_some.mp (congrArg (fun f => f.2.1) hfields)
  have hbegun : e.progress.begun = 2 := congrArg (fun f => f.2.2) hfields
  have hone := (hclaim s ⟨_, hrun⟩ 0 r hr e he 0#64 hlapped
    (by rw [hbegun, hposition]; decide)).left
  exact absurd hone (by decide)

end System
end Spmc
end LowLatency
