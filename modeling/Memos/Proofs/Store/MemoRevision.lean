/-
What the history of a memo keeps.

The revisions of a memo are a list, newest first, and each statement on the table is an
operation on it: storing a revision puts it in front, and the cutoff leaves a part of the
front.  So the newest ones remain, as many as the limit allows.

Whether the version that an update replaces is among them depends on who stored the newest
revision.  This is the memo's last editor as long as every change is recorded and the
newest revision stays.  After a change with the history switched off, or when the newest
revision is deleted, it can be someone else, and their next save drops the text of the
editor in between.
-/
import Memos.Lib.Runs
import Memos.Proofs.Store.MemoUpdate

namespace Memos.Store

open Keyed Runs

/-! ### The revisions as a list -/

section Revisions

variable {revisions revisions' : Table MemoRevisionRow.schema} {memoID : Int}
  {l : List MemoRevisionRow}

theorem mem_memoRevisions {r : MemoRevisionRow} :
    r ∈ memoRevisions revisions memoID ↔ r ∈ revisions ∧ r.memoID = memoID := by
  unfold memoRevisions
  rw [List.mem_mergeSort, Table.mem_select, decide_eq_true_eq]

theorem memoRevisions_sorted :
    (memoRevisions revisions memoID).Pairwise fun a b => b.id < a.id := by
  have sorted : (memoRevisions revisions memoID).Pairwise fun a b => decide (a.id ≥ b.id) = true := by
    refine List.pairwise_mergeSort (fun a b c first second => ?_) (fun a b => ?_) _
    · rw [decide_eq_true_eq] at *
      omega
    · rw [Bool.or_eq_true, decide_eq_true_eq, decide_eq_true_eq]
      omega
  have distinct : (memoRevisions revisions memoID).Pairwise fun a b => a.id ≠ b.id := by
    have keys : ((memoRevisions revisions memoID).map MemoRevisionRow.id).Nodup := by
      refine (((List.mergeSort_perm _ _).map _).nodup_iff).mpr ?_
      exact (Table.keys_nodup revisions).sublist (List.filter_sublist.map _)
    rwa [List.Nodup, List.pairwise_map] at keys
  refine sorted.imp₂ (fun {a b} above apart => ?_) distinct
  rw [decide_eq_true_eq] at above
  omega

theorem nodup_of_sorted (sorted : l.Pairwise fun a b => b.id < a.id) : l.Nodup :=
  sorted.imp fun below same => by
    rw [same] at below
    omega

/-- The order of the ids leaves no choice. -/
theorem memoRevisions_eq (sorted : l.Pairwise fun a b => b.id < a.id)
    (same : ∀ r, r ∈ l ↔ r ∈ revisions ∧ r.memoID = memoID) :
    memoRevisions revisions memoID = l := by
  refine List.Perm.eq_of_pairwise (fun a b _ _ above below => ?_) memoRevisions_sorted sorted ?_
  · omega
  · rw [List.perm_ext_iff_of_nodup (nodup_of_sorted memoRevisions_sorted) (nodup_of_sorted sorted)]
    intro r
    rw [mem_memoRevisions, same]

theorem revisionIDs_eq :
    revisionIDs revisions memoID = (memoRevisions revisions memoID).map MemoRevisionRow.id := by
  unfold revisionIDs memoRevisions
  exact (List.map_mergeSort (f := MemoRevisionRow.id) fun _ _ _ _ => rfl).symm

theorem memoRevisions_insert {row : MemoRevisionRow} (inserted : revisions.insert row = .ok revisions')
    (new : ∀ r ∈ revisions, r.id < row.id) (id : Int) :
    memoRevisions revisions' id
      = if row.memoID = id then row :: memoRevisions revisions id else memoRevisions revisions id := by
  split_ifs with own
  · refine memoRevisions_eq (List.pairwise_cons.mpr ⟨fun r mem => ?_, memoRevisions_sorted⟩)
      fun r => ?_
    · exact new r (mem_memoRevisions.mp mem).1
    · rw [List.mem_cons, mem_memoRevisions, Table.mem_insert inserted]
      constructor
      · rintro (rfl | ⟨mem, same⟩)
        · exact ⟨.inr rfl, own⟩
        · exact ⟨.inl mem, same⟩
      · rintro ⟨mem | rfl, same⟩
        · exact .inr ⟨mem, same⟩
        · exact .inl rfl
  · refine memoRevisions_eq memoRevisions_sorted fun r => ?_
    rw [mem_memoRevisions, Table.mem_insert inserted]
    constructor
    · rintro ⟨mem, same⟩
      exact ⟨.inl mem, same⟩
    · rintro ⟨mem | rfl, same⟩
      · exact ⟨mem, same⟩
      · exact absurd same own

theorem memoRevisions_delete (p : MemoRevisionRow → Bool) :
    memoRevisions (revisions.delete p) memoID
      = (memoRevisions revisions memoID).filter fun r => !p r := by
  refine memoRevisions_eq (memoRevisions_sorted.sublist List.filter_sublist) fun r => ?_
  rw [List.mem_filter, mem_memoRevisions, Table.mem_delete, Bool.not_eq_true', and_right_comm]

theorem filter_cutoff (sorted : l.Pairwise fun a b => b.id < a.id) (k : Nat) :
    (l.filter fun r => !(l.map MemoRevisionRow.id)[k]?.any fun cutoff => decide (r.id ≤ cutoff))
      = l.take k := by
  induction l generalizing k with
  | nil => rw [List.take_nil]; rfl
  | cons first rest ih =>
      rw [List.pairwise_cons] at sorted
      cases k with
      | zero =>
          rw [List.take_zero, List.filter_eq_nil_iff]
          intro r mem
          have below : r.id ≤ first.id := by
            rcases List.mem_cons.mp mem with rfl | mem
            · exact Int.le_refl _
            · exact Int.le_of_lt (sorted.1 r mem)
          simp [below]
      | succ k =>
          have kept : (!((first :: rest).map MemoRevisionRow.id)[k + 1]?.any
              fun cutoff => decide (first.id ≤ cutoff)) = true := by
            rw [List.map_cons, List.getElem?_cons_succ, List.getElem?_map]
            cases there : rest[k]? with
            | none => rfl
            | some r =>
                have above := sorted.1 r (List.mem_of_getElem? there)
                simp only [Option.map_some, Option.any_some, Bool.not_eq_true',
                  decide_eq_false_iff_not]
                omega
          rw [List.filter_cons, if_pos kept, List.take_succ_cons, ← ih sorted.2 k]
          rfl

end Revisions

/-! ### Saving a version -/

/-- The newest revision is of the same person's save session. -/
def coalesces (actorID now : Int) (history : List MemoRevisionRow) : Bool :=
  history.head?.any fun last =>
    decide (last.savedBy = actorID) && decide (now - last.createdTs < MemoRevisionMergeWindow)

/-- What is stored before the oldest revisions are dropped. -/
def withRevision (force : Bool) (revision : MemoRevisionRow) (history : List MemoRevisionRow) :
    List MemoRevisionRow :=
  if coalesces revision.savedBy revision.createdTs history && !force then history
  else revision :: history

/-- What a change of the memo makes of its revisions. -/
def saveRevision (limit : Int) (force : Bool) (revision : MemoRevisionRow)
    (history : List MemoRevisionRow) : List MemoRevisionRow :=
  if 0 < limit then (withRevision force revision history).take (min limit 200).toNat else history

theorem recordRevision_saves {revisions : Table MemoRevisionRow.schema} {row : MemoRevisionRow}
    (new : ∀ r ∈ revisions, r.id < row.id) (recorded : Bool) :
    ∃ revisions', recordRevision revisions recorded row = .ok revisions' ∧ ∀ id,
      memoRevisions revisions' id = if row.memoID = id ∧ recorded = true then
        row :: memoRevisions revisions id else memoRevisions revisions id := by
  cases recorded with
  | false =>
      refine ⟨revisions, rfl, fun id => ?_⟩
      rw [if_neg fun both => nomatch both.2]
  | true =>
      have apart : (revisions.rows ++ [row]).Pairwise fun r s => MemoRevisionRow.schema.clash r s = false := by
        refine List.pairwise_append.mpr ⟨revisions.separate, List.pairwise_singleton _ _, ?_⟩
        intro r mem s last
        rw [List.mem_singleton.mp last]
        have below := new r mem
        exact decide_eq_false (by omega)
      have inserted : revisions.insert row = .ok ⟨revisions.rows ++ [row], apart, fun _ _ => rfl⟩ :=
        Table.ofRows_rows ⟨revisions.rows ++ [row], apart, fun _ _ => rfl⟩
      refine ⟨_, by rw [recordRevision, if_pos rfl, inserted]; rfl, fun id => ?_⟩
      rw [memoRevisions_insert inserted new id]
      exact if_congr (and_iff_left rfl).symm rfl rfl

theorem limit_pos_iff (limit : Int) : max 0 (min limit 200) > 0 ↔ 0 < limit := by omega

section Capture

variable {state state' : State} {now : Int} {update : UpdateMemo} {limit : Int}
  {policy : MemoWritePolicy} {memo : MemoRow}

theorem policyMemo_iff {memoID : Int} :
    policyMemo state memoID = some memo ↔
      state.memos.find? memoID = some memo ∧ memo.deletedTs = none := by
  unfold policyMemo
  rw [Option.filter_eq_some_iff, decide_eq_true_eq]

/-- An id no revision ever had. -/
structure NewID (state : State) (id : Int) : Prop where
  free : ∀ r ∈ state.revisions, r.id < id
  later : state.revisionSequence < id

theorem newID_nextID (state : State) :
    NewID state (nextID state.revisionSequence (state.revisions.rows.map MemoRevisionRow.id)) := by
  refine ⟨fun r mem => lt_nextID (List.mem_map_of_mem mem), Int.lt_add_one_of_le ?_⟩
  suffices largest : ∀ (ids : List Int) (sequence : Int), sequence ≤ ids.foldl max sequence from
    largest _ _
  intro ids
  induction ids with
  | nil => exact fun sequence => Int.le_refl _
  | cons id ids ih => exact fun sequence => Int.le_trans (Int.le_max_left _ _) (ih _)

/-- The revision a save is compared with. -/
theorem newest_eq {revisions : Table MemoRevisionRow.schema} {memoID : Int} :
    (revisionIDs revisions memoID).head?.bind revisions.find?
      = (memoRevisions revisions memoID).head? := by
  rw [revisionIDs_eq, List.head?_map]
  cases newest : (memoRevisions revisions memoID).head? with
  | none => rfl
  | some last =>
      have mem := mem_memoRevisions.mp (List.mem_of_head? newest)
      exact Table.find?_eq_some.mpr ⟨mem.1, rfl⟩

theorem memoRevisions_cutoff (revisions : Table MemoRevisionRow.schema) (memoID : Int) (limit : Int) :
    memoRevisions (revisions.delete fun r => decide (r.memoID = memoID)
        && (if max 0 (min limit 200) > 0 then
          (revisionIDs revisions memoID)[(max 0 (min limit 200)).toNat]? else none).any
            fun cutoff => decide (r.id ≤ cutoff)) memoID
      = if 0 < limit then (memoRevisions revisions memoID).take (min limit 200).toNat
        else memoRevisions revisions memoID := by
  rw [memoRevisions_delete]
  have own : ∀ r ∈ memoRevisions revisions memoID, decide (r.memoID = memoID) = true :=
    fun r mem => decide_eq_true (mem_memoRevisions.mp mem).2
  split_ifs with none some
  · rw [← filter_cutoff memoRevisions_sorted]
    refine List.filter_congr fun r mem => ?_
    have same : max 0 (min limit 200) = min limit 200 := by omega
    rw [own r mem, Bool.true_and, same, revisionIDs_eq]
  · omega
  · omega
  · refine List.filter_eq_self.mpr fun r mem => ?_
    rw [Option.any_none, Bool.and_false]
    rfl

theorem memoRevisions_cutoff_other (revisions : Table MemoRevisionRow.schema) {memoID other : Int}
    (apart : other ≠ memoID) (p : MemoRevisionRow → Bool) :
    memoRevisions (revisions.delete fun r => decide (r.memoID = memoID) && p r) other
      = memoRevisions revisions other := by
  rw [memoRevisions_delete]
  refine List.filter_eq_self.mpr fun r mem => ?_
  have foreign : decide (r.memoID = memoID) = false :=
    decide_eq_false fun same => apart ((mem_memoRevisions.mp mem).2.symm.trans same)
  rw [foreign, Bool.false_and]
  rfl

/-- A change under a limit is saved, and the memo remembers who made it. -/
theorem captureMemoRevision_saves (limited : update.revisionLimit = some limit)
    (byActor : update.policy = some policy) (there : policyMemo state update.id = some memo)
    (changes : update.changes memo = true) :
    ∃ state', captureMemoRevision state now update = .ok state' ∧
      (∃ id, NewID state id ∧
        memoRevisions state'.revisions update.id
          = saveRevision limit update.revisionForce (revisionOf memo id policy.actorUserID now)
              (memoRevisions state.revisions update.id)) ∧
      (∀ other, other ≠ update.id →
        memoRevisions state'.revisions other = memoRevisions state.revisions other) ∧
      ∀ id, state'.memos.find? id = (state.memos.find? id).map fun memo =>
        if memo.id = update.id ∧ memo.deletedTs = none then
          { memo with lastEditorID := some policy.actorUserID } else memo := by
  obtain ⟨found, live⟩ := policyMemo_iff.mp there
  have own : memo.id = update.id := (Table.find?_eq_some.mp found).2
  have given : (update.content.isNone && update.payload.isNone) = false := by
    rw [Bool.eq_false_iff]
    intro none
    rw [Bool.and_eq_true, Option.isNone_iff_eq_none, Option.isNone_iff_eq_none] at none
    rw [UpdateMemo.changes, none.1, none.2] at changes
    cases changes
  unfold captureMemoRevision
  rw [limited, byActor]
  dsimp only
  rw [given, if_neg nofun, there]
  have quiet : ¬(!update.changes memo) = true := by
    rw [changes]
    nofun
  have new := newID_nextID state
  have free : Table.Free MemoRow.schema
      fun memo => { memo with lastEditorID := some policy.actorUserID } :=
    ⟨fun _ => rfl, fun _ _ => ⟨rfl, rfl⟩, fun _ => rfl⟩
  have written := Table.update_of_free state.memos
    (fun memo => decide (memo.id = update.id) && decide (memo.deletedTs = none)) free
  rw [newest_eq]
  obtain ⟨revisions, recorded, saves⟩ := @recordRevision_saves _
    (revisionOf memo
      (nextID state.revisionSequence (state.revisions.rows.map MemoRevisionRow.id))
      policy.actorUserID now) new.free
    (decide (max 0 (min limit 200) > 0) &&
      (!coalesces policy.actorUserID now (memoRevisions state.revisions update.id)
        || update.revisionForce))
  refine ⟨{ state with
    revisions := revisions.delete fun r => decide (r.memoID = update.id)
      && (if max 0 (min limit 200) > 0 then
        (revisionIDs revisions update.id)[(max 0 (min limit 200)).toNat]? else none).any
          fun cutoff => decide (r.id ≤ cutoff)
    memos := state.memos.modify
      (fun memo => decide (memo.id = update.id) && decide (memo.deletedTs = none)) _ free
    revisionSequence := if (decide (max 0 (min limit 200) > 0) &&
        (!coalesces policy.actorUserID now (memoRevisions state.revisions update.id)
          || update.revisionForce)) = true then
      nextID state.revisionSequence (state.revisions.rows.map MemoRevisionRow.id)
      else state.revisionSequence }, ?_, ?_, ?_, ?_⟩
  · show (if (!update.changes memo) = true then (pure state : Except StoreError State) else _) = _
    rw [if_neg quiet]
    show (recordRevision state.revisions (decide (max 0 (min limit 200) > 0) &&
      (!coalesces policy.actorUserID now (memoRevisions state.revisions update.id)
        || update.revisionForce)) _ >>= _) = _
    rw [recorded]
    show (constrained _ _ >>= _) = _
    rw [written]
    rfl
  · refine ⟨_, new, ?_⟩
    show memoRevisions (revisions.delete _) _ = _
    rw [memoRevisions_cutoff, saves, saveRevision]
    by_cases limited : 0 < limit
    · have kept : decide (max 0 (min limit 200) > 0) = true :=
        decide_eq_true ((limit_pos_iff limit).mpr limited)
      rw [if_pos limited, if_pos limited, kept, Bool.true_and, withRevision]
      refine congrArg (List.take _) ?_
      show (if memo.id = update.id ∧ _ then _ else _) = if (coalesces policy.actorUserID now
        (memoRevisions state.revisions update.id) && !update.revisionForce) = true then _ else _
      rw [← ite_not]
      refine if_congr ?_ rfl rfl
      rw [and_iff_right own]
      cases coalesces policy.actorUserID now (memoRevisions state.revisions update.id) <;>
        cases update.revisionForce <;> decide
    · have off : decide (max 0 (min limit 200) > 0) = false :=
        decide_eq_false fun some => limited ((limit_pos_iff limit).mp some)
      rw [if_neg limited, if_neg limited, off, Bool.false_and]
      exact if_neg fun both => nomatch both.2
  · intro other apart
    show memoRevisions (revisions.delete _) _ = _
    rw [memoRevisions_cutoff_other _ apart, saves, if_neg]
    rintro ⟨same, -⟩
    exact apart (same.symm.trans own)
  · intro id
    show (state.memos.modify _ _ free).find? id = _
    rw [Table.find?_modify]
    refine Option.map_congr fun row _ => if_congr ?_ rfl rfl
    rw [Bool.and_eq_true, decide_eq_true_eq, decide_eq_true_eq]

theorem captureMemoRevision_quiet (h : captureMemoRevision state now update = .ok state')
    (quiet : ¬∃ limit policy memo, update.revisionLimit = some limit ∧ update.policy = some policy ∧
      policyMemo state update.id = some memo ∧ update.changes memo = true) : state' = state := by
  unfold captureMemoRevision at h
  split at h
  · rename_i limit policy limited byActor
    split at h
    · injection h with h
      exact h.symm
    · obtain ⟨memo, there, h⟩ := bind_eq_ok.mp h
      rw [orElse_eq_ok] at there
      have same : ¬update.changes memo = true := fun changes =>
        quiet ⟨limit, policy, memo, limited, byActor, there, changes⟩
      change (if (!update.changes memo) = true then (pure state : Except StoreError State) else _)
        = _ at h
      rw [if_pos (by rw [Bool.eq_false_iff.mpr same]; rfl), pure_eq_ok] at h
      exact h.symm
  · injection h with h
    exact h.symm

/-- A change of the memo under a limit, and what became of its revisions. -/
structure Saves (state : State) (now : Int) (update : UpdateMemo) (limit : Int)
    (policy : MemoWritePolicy) (memo : MemoRow) (state' : State) : Prop where
  limited : update.revisionLimit = some limit
  byActor : update.policy = some policy
  there : policyMemo state update.id = some memo
  changes : update.changes memo = true
  history : ∃ id, NewID state id ∧
    memoRevisions state'.revisions update.id
      = saveRevision limit update.revisionForce (revisionOf memo id policy.actorUserID now)
          (memoRevisions state.revisions update.id)
  editor : ∀ memo', policyMemo state' update.id = some memo' → memo'.editor = policy.actorUserID

/-- The memo has the revisions and the last editor it had. -/
structure SameHistory (state : State) (memoID : Int) (state' : State) : Prop where
  history : memoRevisions state'.revisions memoID = memoRevisions state.revisions memoID
  editor : ∀ memo', policyMemo state' memoID = some memo' →
    ∃ memo, policyMemo state memoID = some memo ∧ memo'.editor = memo.editor

/-- The row that is written keeps the last editor. -/
theorem policyMemo_written {memos : Table MemoRow.schema}
    (written : state.memos.update (fun memo => decide (memo.id = update.id)) update.apply = .ok memos)
    {memoID : Int} {memo' : MemoRow}
    (h : policyMemo { state with memos } memoID = some memo') :
    ∃ memo, policyMemo state memoID = some memo ∧ memo'.editor = memo.editor := by
  obtain ⟨found, live⟩ := policyMemo_iff.mp h
  change memos.find? memoID = _ at found
  rw [Table.find?_update written (fun _ => rfl) memoID, Option.map_eq_some_iff] at found
  obtain ⟨memo, found, rfl⟩ := found
  refine ⟨memo, policyMemo_iff.mpr ⟨found, ?_⟩, ?_⟩
  · split_ifs at live <;> exact live
  · split_ifs <;> rfl

/-- Past the revision history, an update does nothing to the history of any memo. -/
theorem applyMemoUpdate_written (h : applyMemoUpdate state now update = .ok state') :
    ∃ between, captureMemoRevision state now update = .ok between ∧
      ∀ memoID, SameHistory between memoID state' := by
  obtain ⟨between, captured, h⟩ := bind_eq_ok.mp h
  refine ⟨between, captured, fun memoID => ?_⟩
  split at h
  · rw [pure_eq_ok] at h
    rw [← h]
    exact ⟨rfl, fun memo there => ⟨memo, there, rfl⟩⟩
  · obtain ⟨memos, written, h⟩ := bind_eq_ok.mp h
    rw [pure_eq_ok] at h
    rw [← h]
    exact ⟨rfl, fun _ => policyMemo_written (of_constrained written)⟩

theorem editor_of_rows {actorID : Int}
    (rows : ∀ id, state'.memos.find? id = (state.memos.find? id).map fun memo =>
      if memo.id = update.id ∧ memo.deletedTs = none then
        { memo with lastEditorID := some actorID } else memo)
    {memoID : Int} {memo' : MemoRow} (last : policyMemo state' memoID = some memo') :
    ∃ memo, policyMemo state memoID = some memo ∧
      memo'.editor = if memoID = update.id then actorID else memo.editor := by
  obtain ⟨found, live⟩ := policyMemo_iff.mp last
  rw [rows, Option.map_eq_some_iff] at found
  obtain ⟨memo, found, rfl⟩ := found
  have key : memo.id = memoID := (Table.find?_eq_some.mp found).2
  have live' : memo.deletedTs = none := by split_ifs at live <;> exact live
  refine ⟨memo, policyMemo_iff.mpr ⟨found, live'⟩, ?_⟩
  by_cases target : memoID = update.id
  · rw [if_pos target, if_pos ⟨key.trans target, live'⟩]
    rfl
  · rw [if_neg target, if_neg fun both => target (key.symm.trans both.1)]

/-- An update that changes the memo is saved. -/
theorem applyMemoUpdate_saves (h : applyMemoUpdate state now update = .ok state')
    (limited : update.revisionLimit = some limit) (byActor : update.policy = some policy)
    (there : policyMemo state update.id = some memo) (changes : update.changes memo = true) :
    Saves state now update limit policy memo state' ∧
      ∀ other, other ≠ update.id → SameHistory state other state' := by
  obtain ⟨between, captured, written⟩ := applyMemoUpdate_written h
  obtain ⟨result, ok, ⟨id, new, history⟩, others, rows⟩ :=
    captureMemoRevision_saves limited byActor there changes
  obtain rfl : result = between := Except.ok.inj (ok.symm.trans captured)
  constructor
  · refine ⟨limited, byActor, there, changes, ⟨id, new, (written _).history.trans history⟩,
      fun memo' last => ?_⟩
    obtain ⟨middle, last, same⟩ := (written _).editor memo' last
    obtain ⟨_, _, editor⟩ := editor_of_rows rows last
    rw [same, editor, if_pos rfl]
  · intro other apart
    refine ⟨(written other).history.trans (others other apart), fun memo' last => ?_⟩
    obtain ⟨middle, last, same⟩ := (written other).editor memo' last
    obtain ⟨first, there, editor⟩ := editor_of_rows rows last
    exact ⟨first, there, by rw [same, editor, if_neg apart]⟩

/-- An update of the memo that changes it is saved, and any other leaves its history alone. -/
theorem applyMemoUpdate_history (h : applyMemoUpdate state now update = .ok state') (memoID : Int) :
    (∃ limit policy memo, update.id = memoID ∧ Saves state now update limit policy memo state') ∨
      SameHistory state memoID state' := by
  by_cases saves : ∃ limit policy memo, update.revisionLimit = some limit ∧
      update.policy = some policy ∧ policyMemo state update.id = some memo ∧
      update.changes memo = true
  · obtain ⟨limit, policy, memo, limited, byActor, there, changes⟩ := saves
    obtain ⟨saves, others⟩ := applyMemoUpdate_saves h limited byActor there changes
    by_cases target : update.id = memoID
    · exact .inl ⟨limit, policy, memo, target, saves⟩
    · exact .inr (others memoID (Ne.symm target))
  · obtain ⟨between, captured, written⟩ := applyMemoUpdate_written h
    rw [captureMemoRevision_quiet captured saves] at written
    exact .inr (written memoID)

end Capture

/-! ### Along a run -/

/-- The newest revision was stored by whoever wrote the memo last, or its session is over. -/
def Attributed (memoID : Int) (s : HistoryState) : Prop :=
  ∀ memo last, policyMemo s.state memoID = some memo →
    (memoRevisions s.state.revisions memoID).head? = some last →
    last.savedBy = memo.editor ∨ MemoRevisionMergeWindow ≤ s.clock - last.createdTs

/-- An action after which it still is so: no one changes the memo without a record in the session
of someone else, and no deletion brings back the session of someone else. -/
def Attributable (memoID : Int) (s : HistoryState) : HistoryAction → Prop
  | .update now update =>
      update.id = memoID → ∀ limit policy memo last, update.revisionLimit = some limit →
        update.policy = some policy → policyMemo s.state memoID = some memo →
        update.changes memo = true → limit ≤ 0 →
        (memoRevisions s.state.revisions memoID).head? = some last →
        last.savedBy = policy.actorUserID ∨ MemoRevisionMergeWindow ≤ now - last.createdTs
  | .deleteRevisions target id =>
      target = memoID → ∀ memo last, policyMemo s.state memoID = some memo →
        ((memoRevisions s.state.revisions memoID).find? fun r => id ≠ 0 && decide (r.id ≠ id))
          = some last →
        last.savedBy = memo.editor ∨ MemoRevisionMergeWindow ≤ s.clock - last.createdTs

/-- The newest revisions remain, with the one that was stored, and no more than the limit. -/
structure KeepsNewest (limit : Int) (state : State) (memoID : Int) (state' : State) : Prop where
  few : (memoRevisions state'.revisions memoID).length ≤ limit
  newest : ∃ added, added.length ≤ 1 ∧ (∀ r ∈ added, r ∉ state.revisions) ∧
    memoRevisions state'.revisions memoID
      = (added ++ memoRevisions state.revisions memoID).take (min limit 200).toNat

/-- A revision that was stored holds the memo as it was. -/
def Preserves (memo : MemoRow) (state : State) (memoID : Int) (state' : State) : Prop :=
  ∃ r ∈ memoRevisions state'.revisions memoID, r ∉ state.revisions ∧ r.content = memo.content ∧
    r.payload = memo.payload ∧ r.visibility = memo.visibility ∧ r.editorID = memo.editor

section Run

variable {s t : HistoryState} {memoID now limit : Int} {update : UpdateMemo}
  {policy : MemoWritePolicy} {memo : MemoRow} {state state' : State}

theorem historyStep_update (h : historyStep s (.update now update) = some t) :
    s.clock ≤ now ∧ t.clock = now ∧ applyMemoUpdate s.state now update = .ok t.state := by
  unfold historyStep at h
  dsimp only at h
  split_ifs at h with later
  cases applied : applyMemoUpdate s.state now update with
  | error err =>
      rw [applied] at h
      cases h
  | ok state =>
      rw [applied] at h
      injection h with h
      rw [← h]
      exact ⟨later, rfl, rfl⟩

/-- The newest revision after a save is the saver's. -/
theorem head?_saveRevision {revision last : MemoRevisionRow} {force : Bool}
    {history : List MemoRevisionRow} (positive : 0 < limit)
    (newest : (saveRevision limit force revision history).head? = some last) :
    last.savedBy = revision.savedBy := by
  rw [saveRevision, if_pos positive, List.head?_take, if_neg (by omega)] at newest
  unfold withRevision at newest
  split_ifs at newest with joined
  · rw [Bool.and_eq_true] at joined
    have same := joined.1
    rw [coalesces, newest, Option.any_some, Bool.and_eq_true, decide_eq_true_eq] at same
    exact same.1
  · rw [List.head?_cons, Option.some_inj] at newest
    rw [newest]

theorem memoRevisions_deleted (id : Int) :
    memoRevisions (deleteMemoRevisions state memoID id).revisions memoID
      = (memoRevisions state.revisions memoID).filter fun r => id ≠ 0 && decide (r.id ≠ id) := by
  unfold deleteMemoRevisions
  rw [memoRevisions_delete]
  refine List.filter_congr fun r mem => ?_
  rw [decide_eq_true (mem_memoRevisions.mp mem).2, Bool.true_and, Bool.not_or, decide_not, decide_not]

theorem attributed_step (before : Attributed memoID s) {action : HistoryAction}
    (allowed : Attributable memoID s action) (next : historyStep s action = some t) :
    Attributed memoID t := by
  intro memo last there newest
  cases action with
  | update now update =>
      obtain ⟨later, clock, applied⟩ := historyStep_update next
      rcases applyMemoUpdate_history applied memoID with
        ⟨limit, policy, was, rfl, saves⟩ | same
      · rw [saves.editor memo there]
        obtain ⟨id, new, history⟩ := saves.history
        rw [history] at newest
        by_cases positive : 0 < limit
        · exact .inl (head?_saveRevision positive newest)
        · rw [saveRevision, if_neg positive] at newest
          rw [clock]
          exact allowed rfl limit policy was last saves.limited saves.byActor saves.there
            saves.changes (Int.not_lt.mp positive) newest
      · obtain ⟨was, there, editor⟩ := same.editor memo there
        rw [same.history] at newest
        rw [editor, clock]
        refine (before was last there newest).imp_right fun past => ?_
        omega
  | deleteRevisions target id =>
      injection next with next
      rw [← next] at there newest ⊢
      change policyMemo s.state memoID = some memo at there
      change (memoRevisions (s.state.revisions.delete _) memoID).head? = some last at newest
      by_cases own : target = memoID
      · subst own
        refine allowed rfl memo last there ?_
        have kept := @memoRevisions_deleted target s.state id
        unfold deleteMemoRevisions at kept
        rw [kept, List.head?_filter] at newest
        exact newest
      · rw [memoRevisions_cutoff_other _ (Ne.symm own)] at newest
        exact before memo last there newest

theorem Saves.keepsNewest (saves : Saves state now update limit policy memo state')
    (positive : 0 < limit) : KeepsNewest limit state update.id state' := by
  obtain ⟨id, new, history⟩ := saves.history
  rw [saveRevision, if_pos positive] at history
  refine ⟨?_, ?_⟩
  · rw [history, List.length_take]
    omega
  · unfold withRevision at history
    split_ifs at history
    · exact ⟨[], Nat.zero_le _, fun r mem => absurd mem List.not_mem_nil,
        by rw [history, List.nil_append]⟩
    · refine ⟨[revisionOf memo id policy.actorUserID now], Nat.le_refl _, fun r mem old => ?_,
        by rw [history, List.singleton_append]⟩
      rw [List.mem_singleton.mp mem] at old
      exact Int.lt_irrefl _ (new.free _ old)

/-- When no session of the actor is open, the version that is replaced is stored. -/
theorem Saves.preserves (saves : Saves state now update limit policy memo state')
    (positive : 0 < limit)
    (closed : ∀ last, (memoRevisions state.revisions update.id).head? = some last →
      last.savedBy ≠ policy.actorUserID ∨ MemoRevisionMergeWindow ≤ now - last.createdTs) :
    Preserves memo state update.id state' := by
  obtain ⟨id, new, history⟩ := saves.history
  have alone : coalesces policy.actorUserID now (memoRevisions state.revisions update.id) = false := by
    unfold coalesces
    cases newest : (memoRevisions state.revisions update.id).head? with
    | none => rfl
    | some last =>
        rw [Option.any_some, Bool.and_eq_false_iff, decide_eq_false_iff_not, decide_eq_false_iff_not,
          Int.not_lt]
        exact closed last newest
  rw [saveRevision, if_pos positive, withRevision] at history
  have separate : ¬(coalesces (revisionOf memo id policy.actorUserID now).savedBy
      (revisionOf memo id policy.actorUserID now).createdTs
      (memoRevisions state.revisions update.id) && !update.revisionForce) = true := by
    show ¬(coalesces policy.actorUserID now _ && _) = true
    rw [alone]
    nofun
  rw [if_neg separate] at history
  refine ⟨revisionOf memo id policy.actorUserID now, ?_, fun old => ?_, rfl, rfl, rfl, rfl⟩
  · obtain ⟨k, size⟩ : ∃ k, (min limit 200).toNat = k + 1 := ⟨(min limit 200).toNat - 1, by omega⟩
    rw [history, size, List.take_succ_cons]
    exact List.mem_cons_self
  · exact Int.lt_irrefl _ (new.free _ old)

def editPolicy (actorID : Int) : MemoWritePolicy :=
  { actorUserID := actorID, adminOverride := true, lifecycleOnly := false, creatingShare := false }

def saveContent (memoID actorID limit : Int) (content : String) : UpdateMemo :=
  { revisionLimit := some limit, revisionForce := false, id := memoID, uid := none,
    createdTs := none, updatedTs := none, rowStatus := none, content := some content,
    visibility := none, pinned := none, payload := none, spaceID := none, clearSpace := false,
    policy := some (editPolicy actorID) }

/-- What such a save leads to. -/
structure SavesContent (s : HistoryState) (now : Int) (memoID actorID limit : Int)
    (content : String) (memo : MemoRow) (t : HistoryState) : Prop where
  next : historyStep s (.update now (saveContent memoID actorID limit content)) = some t
  changes : (saveContent memoID actorID limit content).changes memo = true
  clock : t.clock = now
  edited : policyMemo t.state memoID = some { memo with content, lastEditorID := some actorID }
  history : ∃ id, NewID s.state id ∧ memoRevisions t.state.revisions memoID
    = saveRevision limit false (revisionOf memo id actorID now)
        (memoRevisions s.state.revisions memoID)

/-- Nothing in the tables stands in its way. -/
theorem exists_savesContent (now : Int) (content : String)
    (there : policyMemo s.state memoID = some memo) (other : content ≠ memo.content)
    (later : s.clock ≤ now) (actorID limit : Int) :
    ∃ t, SavesContent s now memoID actorID limit content memo t := by
  have changes : (saveContent memoID actorID limit content).changes memo = true := by
    rw [UpdateMemo.changes, Bool.or_eq_true]
    exact .inl (decide_eq_true other)
  obtain ⟨between, captured, -, -, rows⟩ :=
    captureMemoRevision_saves
      rfl rfl there changes
  have free : Table.Free MemoRow.schema (saveContent memoID actorID limit content).apply :=
    ⟨fun _ => rfl, fun _ _ => ⟨rfl, rfl⟩, fun _ => rfl⟩
  have applied : applyMemoUpdate s.state now (saveContent memoID actorID limit content)
      = .ok { between with
        memos := between.memos.modify (fun memo => decide (memo.id = memoID)) _ free } := by
    unfold applyMemoUpdate
    rw [captured]
    show (constrained _ (between.memos.update _ _) >>= _) = _
    rw [Table.update_of_free _ _ free]
    rfl
  obtain ⟨found, live⟩ := policyMemo_iff.mp there
  have key : memo.id = memoID := (Table.find?_eq_some.mp found).2
  refine ⟨⟨_, now⟩, ?_, changes, rfl, ?_, (applyMemoUpdate_saves applied rfl rfl there changes).1.history⟩
  · unfold historyStep
    dsimp only
    rw [if_pos later, applied]
    rfl
  · refine policyMemo_iff.mpr ⟨?_, live⟩
    show (between.memos.modify _ _ free).find? memoID = _
    rw [Table.find?_modify, rows, found, Option.map_some, if_pos ⟨key, live⟩, Option.map_some,
      if_pos (decide_eq_true key)]
    rfl

/-- The condition is exact: as long as it holds every change by someone else is stored, and when
it does not the one who stored the newest revision can drop a text. -/
theorem attributed_iff :
    Attributed memoID s ↔ ∀ now update t limit policy memo,
      historyStep s (.update now update) = some t → update.id = memoID →
      update.revisionLimit = some limit → update.policy = some policy →
      policyMemo s.state memoID = some memo → update.changes memo = true → 0 < limit →
      memo.editor ≠ policy.actorUserID → Preserves memo s.state memoID t.state := by
  constructor
  · rintro attributed now update t limit policy memo next rfl limited byActor there changes positive
      other
    obtain ⟨later, -, applied⟩ := historyStep_update next
    refine (applyMemoUpdate_saves applied limited byActor there changes).1.preserves positive
      fun last newest => ?_
    rcases attributed memo last there newest with same | past
    · exact .inl (same ▸ other)
    · right
      omega
  · intro keeps memo last there newest
    by_contra open'
    rw [not_or, Int.not_le] at open'
    have longer : memo.content ++ "." ≠ memo.content := by
      intro same
      have sizes := congrArg String.length same
      rw [String.length_append] at sizes
      exact absurd sizes (by show _ + 1 ≠ _; omega)
    obtain ⟨t, saves⟩ := exists_savesContent s.clock _ there longer (Int.le_refl _) last.savedBy 1
    obtain ⟨r, kept, new, -⟩ := keeps _ _ t 1 (editPolicy last.savedBy) memo saves.next rfl rfl rfl
      there saves.changes (by decide) (Ne.symm open'.1)
    obtain ⟨id, -, history⟩ := saves.history
    have joined : coalesces last.savedBy s.clock (memoRevisions s.state.revisions memoID) = true := by
      rw [coalesces, newest, Option.any_some, decide_eq_true rfl, Bool.true_and]
      exact decide_eq_true open'.2
    have same : withRevision false (revisionOf memo id last.savedBy s.clock)
        (memoRevisions s.state.revisions memoID) = memoRevisions s.state.revisions memoID := by
      refine if_pos ?_
      show (coalesces last.savedBy s.clock _ && !false) = true
      rw [joined]
      rfl
    rw [history, saveRevision, if_pos (by decide), same] at kept
    exact new (mem_memoRevisions.mp (List.mem_of_mem_take kept)).1

/-- Along any updates and deletions of the kind: after a change under a limit the newest revisions
of the memo remain, at most as many as the limit, and if someone else wrote the version that is
replaced, it is stored with the change. -/
theorem revisions_kept {start : State} {clock : Int}
    (created : memoRevisions start.revisions memoID = [])
    (run : Run historyStep (Attributable memoID) ⟨start, clock⟩ s)
    (next : historyStep s (.update now update) = some t) (target : update.id = memoID)
    (limited : update.revisionLimit = some limit) (byActor : update.policy = some policy)
    (there : policyMemo s.state memoID = some memo) (changes : update.changes memo = true)
    (positive : 0 < limit) :
    KeepsNewest limit s.state memoID t.state ∧
      (memo.editor ≠ policy.actorUserID → Preserves memo s.state memoID t.state) := by
  subst target
  obtain ⟨later, -, applied⟩ := historyStep_update next
  have attributed : Attributed update.id s := by
    refine run.invariant (fun memo last _ newest => ?_) fun t u action before allowed next =>
      attributed_step before allowed next
    rw [created] at newest
    cases newest
  have saves := (applyMemoUpdate_saves applied limited byActor there changes).1
  exact ⟨saves.keepsNewest positive, fun other => attributed_iff.mp attributed _ _ _ _ _ _ next rfl
    limited byActor there changes positive other⟩

/-! ### Two people and one memo -/

theorem adaDatabase_revisions : memoRevisions adaDatabase.revisions 1 = [] :=
  memoRevisions_eq .nil fun _ => ⟨nofun, fun mem => nomatch mem.1⟩

theorem adaMemo_stored : policyMemo adaDatabase 1 = some adaMemo := rfl

/-- Ada's memo is edited by Bob and then by Ada: the history keeps Bob's text. -/
theorem revisions_kept_ada : ∃ s t,
    historyStep ⟨adaDatabase, 0⟩ (.update 100 (saveContent 1 2 20 "Bob's plans")) = some s ∧
    historyStep s (.update 200 (saveContent 1 1 20 "Ada's plans")) = some t ∧
    KeepsNewest 20 s.state 1 t.state ∧
    ∃ r ∈ memoRevisions t.state.revisions 1, r.content = "Bob's plans" ∧ r.editorID = 2 := by
  obtain ⟨s, first⟩ := exists_savesContent (s := ⟨adaDatabase, 0⟩) 100 "Bob's plans"
    adaMemo_stored (by decide) (by decide) 2 20
  obtain ⟨t, second⟩ := exists_savesContent 200 "Ada's plans" first.edited
    (by decide) (by rw [first.clock]; decide) 1 20
  have run : Run historyStep (Attributable 1) ⟨adaDatabase, 0⟩ s := by
    refine Run.refl.tail _ ?_ first.next
    intro _ limit _ _ _ limited _ _ _ off
    injection limited with limited
    rw [← limited] at off
    exact absurd off (by decide)
  obtain ⟨newest, preserves⟩ := revisions_kept adaDatabase_revisions run second.next rfl rfl rfl
    first.edited second.changes (by decide)
  obtain ⟨r, kept, -, content, -, -, editor⟩ := preserves (by decide)
  exact ⟨s, t, first.next, second.next, newest, r, kept, content, editor⟩

def bobsMemo : MemoRow :=
  { adaMemo with content := "Bob's plans", lastEditorID := some 2 }

/-- Bob edits Ada's memo, Ada edits it again, the newest revision is deleted and Bob edits it once
more.  No revision holds the text of Ada's that he replaces. -/
theorem revision_dropped : ∃ s₁ s₂ s₃ s₄ newest memo,
    historyStep ⟨adaDatabase, 0⟩ (.update 100 (saveContent 1 2 20 "Bob's plans")) = some s₁ ∧
    historyStep s₁ (.update 200 (saveContent 1 1 20 "Ada's plans")) = some s₂ ∧
    (memoRevisions s₂.state.revisions 1).head? = some newest ∧
    historyStep s₂ (.deleteRevisions 1 newest.id) = some s₃ ∧
    policyMemo s₃.state 1 = some memo ∧ memo.content = "Ada's plans" ∧ memo.editor = 1 ∧
    historyStep s₃ (.update 300 (saveContent 1 2 20 "Bob's new plans")) = some s₄ ∧
    ∀ r ∈ memoRevisions s₄.state.revisions 1, r.content ≠ "Ada's plans" := by
  obtain ⟨s₁, first⟩ := exists_savesContent (s := ⟨adaDatabase, 0⟩) 100 "Bob's plans"
    adaMemo_stored (by decide) (by decide) 2 20
  obtain ⟨s₂, second⟩ := exists_savesContent 200 "Ada's plans" first.edited
    (by decide) (by rw [first.clock]; decide) 1 20
  obtain ⟨id₁, positive, history₁⟩ := first.history
  obtain ⟨id₂, new, history₂⟩ := second.history
  rw [adaDatabase_revisions] at history₁
  change _ = [revisionOf adaMemo id₁ 2 100] at history₁
  rw [history₁] at history₂
  change _ = [revisionOf bobsMemo id₂ 1 200, revisionOf adaMemo id₁ 2 100] at history₂
  have below : id₁ < id₂ := by
    have mem : revisionOf adaMemo id₁ 2 100 ∈ memoRevisions s₁.state.revisions 1 := by
      rw [history₁]
      exact List.mem_cons_self
    exact new.free _ (mem_memoRevisions.mp mem).1
  have rest : memoRevisions (deleteMemoRevisions s₂.state 1 id₂).revisions 1
      = [revisionOf adaMemo id₁ 2 100] := by
    have some : (0 : Int) < id₁ := positive.later
    have real : decide (id₂ ≠ 0) = true := decide_eq_true (by omega)
    have other : decide (id₁ ≠ id₂) = true := decide_eq_true (by omega)
    rw [memoRevisions_deleted, history₂, List.filter_cons, List.filter_cons, List.filter_nil]
    show (if (decide (id₂ ≠ 0) && decide (id₂ ≠ id₂)) = true then _ else
      if (decide (id₂ ≠ 0) && decide (id₁ ≠ id₂)) = true then _ else _) = _
    rw [real, other]
    simp
  obtain ⟨s₄, last⟩ := exists_savesContent (s := ⟨deleteMemoRevisions s₂.state 1 id₂, s₂.clock⟩)
    300 "Bob's new plans" second.edited (by decide)
    (by rw [second.clock]; decide) 2 20
  obtain ⟨id₄, -, history₄⟩ := last.history
  rw [rest] at history₄
  change _ = [revisionOf adaMemo id₁ 2 100] at history₄
  have newest : (memoRevisions s₂.state.revisions 1).head? = some (revisionOf bobsMemo id₂ 1 200) := by
    rw [history₂]
    exact List.head?_cons
  have dropped : ∀ r ∈ memoRevisions s₄.state.revisions 1, r.content ≠ "Ada's plans" := by
    intro r mem
    rw [history₄, List.mem_singleton] at mem
    rw [mem]
    show adaMemo.content ≠ _
    decide
  exact ⟨s₁, s₂, ⟨deleteMemoRevisions s₂.state 1 id₂, s₂.clock⟩, s₄, _, _, first.next, second.next,
    newest, rfl, second.edited, rfl, rfl, last.next, dropped⟩

end Run

end Memos.Store
