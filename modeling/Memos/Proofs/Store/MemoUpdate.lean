/-
The row an update writes.

Whether a memo is updated alone or with its attachments and relations, its row becomes
the row the `SET` list makes of it, but for the last editor, whom the revision history
records.  Users, Spaces and members stay as they are.
-/
import Memos.Proofs.Store.MemoAttachment
import Memos.Proofs.Store.MemoWrite

namespace Memos.Store

open Keyed

/-- What an update of a memo makes of the database. -/
structure Writes (update : UpdateMemo) (memo : MemoRow) (state state' : State) : Prop where
  tables : SameTables state' state
  anonymous : state'.allowsAnonymousAccess = state.allowsAnonymousAccess
  row : ∃ editor, { update.apply memo with lastEditorID := editor } ∈ state'.memos

theorem apply_of_isEmpty {update : UpdateMemo} (empty : update.isEmpty = true) (memo : MemoRow) :
    update.apply memo = memo := by
  simp only [UpdateMemo.isEmpty, Bool.and_eq_true, Option.isNone_iff_eq_none,
    Bool.not_eq_true'] at empty
  simp [UpdateMemo.apply, empty]

/-- The rows an update of the table has selected are in it as they were written. -/
theorem mem_of_update {t t' : Table MemoRow.schema} {p : MemoRow → Bool} {f : MemoRow → MemoRow}
    {memo : MemoRow} (h : t.update p f = .ok t') (stored : memo ∈ t) (selected : p memo = true) :
    f memo ∈ t' :=
  (Table.mem_update h).mpr ⟨memo, stored, if_pos selected⟩

section Alone

variable {state state' : State} {now : Int} {update : UpdateMemo} {memo : MemoRow}

theorem captureMemoRevision_editor (stored : memo ∈ state.memos)
    (h : captureMemoRevision state now update = .ok state') :
    state'.allowsAnonymousAccess = state.allowsAnonymousAccess ∧
      ∃ editor, { memo with lastEditorID := editor } ∈ state'.memos := by
  have same : state.allowsAnonymousAccess = state.allowsAnonymousAccess ∧
      ∃ editor, { memo with lastEditorID := editor } ∈ state.memos :=
    ⟨rfl, memo.lastEditorID, stored⟩
  unfold captureMemoRevision at h
  split at h
  · split at h
    · injection h with h
      exact h ▸ same
    · obtain ⟨_, -, h⟩ := bind_eq_ok.mp h
      dsimp only at h
      split at h
      · rw [pure_eq_ok] at h
        exact h ▸ same
      · obtain ⟨revisions, -, h⟩ := bind_eq_ok.mp h
        obtain ⟨memos, written, h⟩ := bind_eq_ok.mp h
        rw [pure_eq_ok] at h
        rw [← h]
        refine ⟨rfl, ?_⟩
        have row := (Table.mem_update (of_constrained written)).mpr ⟨memo, stored, rfl⟩
        split at row
        · exact ⟨_, row⟩
        · exact ⟨memo.lastEditorID, row⟩
  · injection h with h
    exact h ▸ same

theorem applyMemoUpdate_writes (stored : memo ∈ state.memos) (id : memo.id = update.id)
    (h : applyMemoUpdate state now update = .ok state') : Writes update memo state state' := by
  obtain ⟨between, captured, h⟩ := bind_eq_ok.mp h
  have tables := (captureMemoRevision_spec captured).1
  obtain ⟨anonymous, editor, row⟩ := captureMemoRevision_editor stored captured
  split at h
  · rename_i empty
    rw [pure_eq_ok] at h
    rw [← h]
    refine ⟨tables, anonymous, editor, ?_⟩
    rw [apply_of_isEmpty empty]
    exact row
  · obtain ⟨memos, written, h⟩ := bind_eq_ok.mp h
    rw [pure_eq_ok] at h
    rw [← h]
    refine ⟨⟨tables.users, tables.spaces, tables.members, tables.shares⟩, anonymous, editor, ?_⟩
    exact mem_of_update (of_constrained written) row (decide_eq_true id)

/-- `Store.UpdateMemo`, past all that is checked. -/
theorem applyMemoUpdate_of_updateMemo {validUID : String → Bool}
    (h : updateMemo validUID state now update = .ok state') :
    applyMemoUpdate state now update = .ok state' := by
  obtain ⟨_, -, h⟩ := bind_eq_ok.mp h
  obtain ⟨_, -, h⟩ := bind_eq_ok.mp h
  obtain ⟨_, -, h⟩ := bind_eq_ok.mp h
  obtain ⟨_, -, h⟩ := bind_eq_ok.mp h
  unfold driverUpdateMemo at h
  split at h
  · exact h
  · obtain ⟨_, -, h⟩ := bind_eq_ok.mp h
    exact h

/-! ### Payloads -/

def payloadOf (state : State) (id : Int) : Option MemoPayload :=
  (state.memos.find? id).map MemoRow.payload

theorem captureMemoRevision_payload (h : captureMemoRevision state now update = .ok state')
    (id : Int) : payloadOf state' id = payloadOf state id := by
  unfold captureMemoRevision at h
  split at h
  · split at h
    · injection h with h
      rw [h]
    · obtain ⟨_, -, h⟩ := bind_eq_ok.mp h
      dsimp only at h
      split at h
      · rw [pure_eq_ok] at h
        rw [h]
      · obtain ⟨revisions, -, h⟩ := bind_eq_ok.mp h
        obtain ⟨memos, written, h⟩ := bind_eq_ok.mp h
        rw [pure_eq_ok] at h
        rw [← h]
        show (memos.find? id).map _ = (state.memos.find? id).map _
        rw [Table.find?_update (of_constrained written) (fun _ => rfl) id, Option.map_map]
        refine Option.map_congr fun row _ => ?_
        show (if _ then _ else row).payload = row.payload
        split
        · rfl
        · rfl
  · injection h with h
    rw [h]

theorem applyMemoUpdate_payload (h : applyMemoUpdate state now update = .ok state') (id : Int) :
    payloadOf state' id = (payloadOf state id).map fun payload =>
      if id = update.id then update.payload.getD payload else payload := by
  obtain ⟨between, captured, h⟩ := bind_eq_ok.mp h
  rw [← captureMemoRevision_payload captured id]
  split at h
  · rename_i empty
    rw [pure_eq_ok] at h
    rw [← h]
    simp only [UpdateMemo.isEmpty, Bool.and_eq_true, Option.isNone_iff_eq_none] at empty
    have none : update.payload = none := empty.1.1.2
    simp [none]
  · obtain ⟨memos, written, h⟩ := bind_eq_ok.mp h
    rw [pure_eq_ok] at h
    rw [← h]
    unfold payloadOf
    show (memos.find? id).map _ = _
    rw [Table.find?_update (of_constrained written) (f := update.apply) (fun _ => rfl) id]
    cases stored : between.memos.find? id with
    | none => rfl
    | some row =>
        have key : row.id = id := (Table.find?_eq_some.mp stored).2
        simp only [Option.map_some, key, decide_eq_true_eq]
        split
        · rfl
        · rfl

/-! ### Rows -/

theorem captureMemoRevision_row (h : captureMemoRevision state now update = .ok state') :
    state'.allowsAnonymousAccess = state.allowsAnonymousAccess ∧
      ∀ id row, state.memos.find? id = some row →
        ∃ editor, state'.memos.find? id = some { row with lastEditorID := editor } := by
  have same : state.allowsAnonymousAccess = state.allowsAnonymousAccess ∧
      ∀ id row, state.memos.find? id = some row →
        ∃ editor, state.memos.find? id = some { row with lastEditorID := editor } :=
    ⟨rfl, fun id row stored => ⟨row.lastEditorID, stored⟩⟩
  unfold captureMemoRevision at h
  split at h
  · split at h
    · injection h with h
      exact h ▸ same
    · obtain ⟨_, -, h⟩ := bind_eq_ok.mp h
      dsimp only at h
      split at h
      · rw [pure_eq_ok] at h
        exact h ▸ same
      · obtain ⟨revisions, -, h⟩ := bind_eq_ok.mp h
        obtain ⟨memos, written, h⟩ := bind_eq_ok.mp h
        rw [pure_eq_ok] at h
        rw [← h]
        refine ⟨rfl, fun id row stored => ?_⟩
        show ∃ editor, memos.find? id = _
        rw [Table.find?_update (of_constrained written) (fun _ => rfl) id, stored, Option.map_some]
        split
        · exact ⟨_, rfl⟩
        · exact ⟨row.lastEditorID, rfl⟩
  · injection h with h
    exact h ▸ same

theorem applyMemoUpdate_row (h : applyMemoUpdate state now update = .ok state') :
    SameTables state' state ∧ state'.allowsAnonymousAccess = state.allowsAnonymousAccess ∧
      ∀ id row, state.memos.find? id = some row → ∃ editor, state'.memos.find? id = some
        { (if id = update.id then update.apply row else row) with lastEditorID := editor } := by
  obtain ⟨between, captured, h⟩ := bind_eq_ok.mp h
  have tables := (captureMemoRevision_spec captured).1
  obtain ⟨anonymous, rows⟩ := captureMemoRevision_row captured
  split at h
  · rename_i empty
    rw [pure_eq_ok] at h
    rw [← h]
    refine ⟨tables, anonymous, fun id row stored => ?_⟩
    obtain ⟨editor, between⟩ := rows id row stored
    refine ⟨editor, ?_⟩
    rw [apply_of_isEmpty empty, ite_self]
    exact between
  · obtain ⟨memos, written, h⟩ := bind_eq_ok.mp h
    rw [pure_eq_ok] at h
    rw [← h]
    refine ⟨⟨tables.users, tables.spaces, tables.members, tables.shares⟩, anonymous, ?_⟩
    intro id row stored
    obtain ⟨editor, between⟩ := rows id row stored
    have key : row.id = id := (Table.find?_eq_some.mp stored).2
    refine ⟨editor, ?_⟩
    show memos.find? id = _
    rw [Table.find?_update (of_constrained written) (f := update.apply) (fun _ => rfl) id, between,
      Option.map_some]
    by_cases target : id = update.id
    · rw [if_pos target, if_pos (decide_eq_true (key.trans target))]
      rfl
    · rw [if_neg target, if_neg fun same => target (key.symm.trans (of_decide_eq_true same))]

end Alone

section Mutation

variable {validUID readable : String → Bool} {importHash : String → String} {db db' : Tables}
  {now : Int} {mutation mutation' : MemoMutation} {update : UpdateMemo} {memo : MemoRow}

/-- In front of the driver, a mutation that creates no memo is checked and its removed ids are
sorted. -/
theorem prepareMemoMutation_eq (updating : mutation.memoCreate = none)
    (h : prepareMemoMutation validUID mutation = .ok mutation') :
    mutation' = { mutation with
      removedAttachmentIDs := mutation.removedAttachmentIDs.insertionSort (· ≤ ·) } := by
  obtain ⟨filled, rfl, ⟨-, rfl⟩ | ⟨create, creating, -⟩⟩ := prepareMemoMutation_ok h
  · rfl
  · rw [updating] at creating
    cases creating

/-- `Store.ApplyMemoMutation`, for an update. -/
structure MutationUpdates (db db' : Tables) (now : Int) (mutation : MemoMutation) : Prop where
  content : ∃ memo, db.memos.find? mutation.memoID = some memo ∧
    memo.content = mutation.expectedMemoContent
  /-- What it makes of memos, Spaces and users. -/
  state : ∀ update, mutation.memoUpdate = some update →
    update.id = mutation.memoID ∧ applyMemoUpdate db.toState now update = .ok db'.toState
  pollVotes : db'.pollVotes = db.pollVotes

theorem mutationUpdates (updating : mutation.memoCreate = none)
    (unrecorded : mutation.importRecord = none)
    (h : applyMemoMutation validUID readable importHash db now mutation = .ok db') :
    MutationUpdates db db' now mutation := by
  obtain ⟨mutation', prepare, h⟩ := bind_eq_ok.mp h
  rw [prepareMemoMutation_eq updating prepare] at h
  obtain ⟨_, -, h⟩ := bind_eq_ok.mp h
  obtain ⟨⟨created, mutation''⟩, create, h⟩ := bind_eq_ok.mp h
  unfold createMutationMemo at create
  dsimp only at create
  rw [updating] at create
  injection create with create
  injection create with tables same
  rw [← tables, ← same] at h
  obtain ⟨_, -, h⟩ := bind_eq_ok.mp h
  obtain ⟨memo, found, h⟩ := bind_eq_ok.mp h
  obtain ⟨_, expected, h⟩ := bind_eq_ok.mp h
  obtain ⟨attachments, -, h⟩ := bind_eq_ok.mp h
  obtain ⟨state, write, h⟩ := bind_eq_ok.mp h
  obtain ⟨related, relate, imported⟩ := bind_eq_ok.mp h
  have relate : related.toState = state ∧ related.pollVotes = db.pollVotes := by
    split at relate
    · obtain ⟨relations, -, relate⟩ := bind_eq_ok.mp relate
      rw [pure_eq_ok] at relate
      rw [← relate]
      exact ⟨rfl, rfl⟩
    · injection relate with relate
      rw [← relate]
      exact ⟨rfl, rfl⟩
  unfold recordMemoImport at imported
  dsimp only at imported
  rw [unrecorded] at imported
  injection imported with imported
  rw [← imported]
  refine ⟨?_, fun update change => ?_, relate.2⟩
  · rw [require_eq_ok, Bool.and_eq_true, decide_eq_true_eq, decide_eq_true_eq] at expected
    have found : policyMemo db.toState mutation.memoID = some memo := orElse_eq_ok.mp found
    exact ⟨memo, (Option.filter_eq_some_iff.mp found).1, expected.2⟩
  · dsimp only at write
    rw [change] at write
    obtain ⟨_, target, write⟩ := bind_eq_ok.mp write
    rw [require_eq_ok, decide_eq_true_eq] at target
    rw [relate.1]
    exact ⟨target, write⟩

end Mutation

end Memos.Store
