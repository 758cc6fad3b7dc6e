/-
The memo a request creates.

The store inserts the row that was prepared under an id no memo has had, leaves the other
rows alone, and the request goes on with that row.
-/
import Memos.Api.MemoCreate
import Memos.Proofs.Api.MemoUpdate

namespace Memos.Api

open Store Access

/-! ### The mutation -/

section Mutation

variable {validUID readable : String → Bool} {importHash : String → String} {db db' : Tables}
  {now : Int} {mutation mutation' : MemoMutation} {create : MemoCreate}

/-- In front of the driver, a mutation that creates a memo keeps what it creates. -/
theorem prepareMemoMutation_creates (creating : mutation.memoCreate = some create)
    (h : prepareMemoMutation validUID mutation = .ok mutation') :
    mutation'.memoCreate = some create ∧ mutation'.memoUpdate = none ∧
      mutation'.importRecord = mutation.importRecord := by
  obtain ⟨filled, rfl, ⟨updating, -⟩ | ⟨_, -, alone, rfl⟩⟩ := prepareMemoMutation_ok h
  · rw [creating] at updating
    cases updating
  · exact ⟨creating, alone, rfl⟩

theorem insertSQLiteMemo_rows {id : Int} (h : insertSQLiteMemo db now create = .ok (db', id)) :
    db'.memos.rows = db.memos.rows ++ [create.row id now] ∧ db'.imports = db.imports := by
  obtain ⟨memos, inserted, h⟩ := bind_eq_ok.mp h
  rw [pure_eq_ok] at h
  injection h with h same
  rw [← h, ← same]
  exact ⟨Keyed.Table.rows_of_ofRows (of_constrained inserted), rfl⟩

/-- The state of the transaction when the import is to be recorded. -/
structure Inserted (db between : Tables) (now : Int) (mutation : MemoMutation) (create : MemoCreate)
    (target : MemoMutation) : Prop where
  fresh : ∀ memo ∈ db.memos, memo.id ≠ target.memoID
  rows : between.memos.rows = db.memos.rows ++ [create.row target.memoID now]
  imports : between.imports = db.imports
  creator : target.memoCreatorID = create.creatorID
  creates : target.memoCreate = some create
  record : target.importRecord = mutation.importRecord

/-- The row is inserted under a new id, and nothing but the record of an import changes a memo
after it. -/
theorem applyMemoMutation_inserts (creating : mutation.memoCreate = some create)
    (h : applyMemoMutation validUID readable importHash db now mutation = .ok db') :
    ∃ between target, Inserted db between now mutation create target ∧
      recordMemoImport importHash between now target = .ok db' := by
  obtain ⟨prepared, prepare, h⟩ := bind_eq_ok.mp h
  obtain ⟨creates, unchanged, record⟩ := prepareMemoMutation_creates creating prepare
  obtain ⟨_, -, h⟩ := bind_eq_ok.mp h
  obtain ⟨⟨created, target⟩, insert, h⟩ := bind_eq_ok.mp h
  unfold createMutationMemo at insert
  rw [creates] at insert
  obtain ⟨_, -, insert⟩ := bind_eq_ok.mp insert
  obtain ⟨_, -, insert⟩ := bind_eq_ok.mp insert
  obtain ⟨⟨inserted, memoID⟩, insertion, insert⟩ := bind_eq_ok.mp insert
  obtain ⟨related, relate, insert⟩ := bind_eq_ok.mp insert
  rw [pure_eq_ok] at insert
  injection insert with tables same
  rw [tables] at relate
  obtain ⟨-, -, fresh⟩ := insertSQLiteMemo_spec insertion
  obtain ⟨rows, imports⟩ := insertSQLiteMemo_rows insertion
  have relate : created.memos = inserted.memos ∧ created.imports = inserted.imports := by
    cases context : prepared.commentContextMemoID with
    | none =>
        rw [context] at relate
        injection relate with relate
        rw [relate]
        exact ⟨rfl, rfl⟩
    | some contextMemoID =>
        rw [context] at relate
        obtain ⟨_, -, relate⟩ := bind_eq_ok.mp relate
        obtain ⟨relations, -, relate⟩ := bind_eq_ok.mp relate
        rw [pure_eq_ok] at relate
        rw [← relate]
        exact ⟨rfl, rfl⟩
  obtain ⟨_, -, h⟩ := bind_eq_ok.mp h
  obtain ⟨_, -, h⟩ := bind_eq_ok.mp h
  obtain ⟨_, -, h⟩ := bind_eq_ok.mp h
  obtain ⟨attachments, -, h⟩ := bind_eq_ok.mp h
  obtain ⟨state, write, h⟩ := bind_eq_ok.mp h
  obtain ⟨replaced, replace, recorded⟩ := bind_eq_ok.mp h
  have replace : replaced.memos = state.memos ∧ replaced.imports = created.imports := by
    split at replace
    · obtain ⟨relations, -, replace⟩ := bind_eq_ok.mp replace
      rw [pure_eq_ok] at replace
      rw [← replace]
      exact ⟨rfl, rfl⟩
    · injection replace with replace
      rw [← replace]
      exact ⟨rfl, rfl⟩
  rw [← same] at write
  dsimp only at write
  rw [unchanged] at write
  injection write with write
  refine ⟨replaced, target, ⟨?_, ?_, ?_, ?_, ?_, ?_⟩, recorded⟩
  · rw [← same]
    exact fresh
  · rw [replace.1, ← write, ← same]
    exact (congrArg Keyed.Table.rows relate.1).trans rows
  · rw [replace.2, relate.2, imports]
  · rw [← same]
  · rw [← same]
  · rw [← same]
    exact record

theorem applyMemoMutation_creates (creating : mutation.memoCreate = some create)
    (unrecorded : mutation.importRecord = none)
    (h : applyMemoMutation validUID readable importHash db now mutation = .ok db') :
    ∃ id, (∀ memo ∈ db.memos, memo.id ≠ id) ∧
      db'.memos.rows = db.memos.rows ++ [create.row id now] := by
  obtain ⟨between, target, inserted, recorded⟩ := applyMemoMutation_inserts creating h
  unfold recordMemoImport at recorded
  rw [inserted.record, unrecorded] at recorded
  injection recorded with recorded
  exact ⟨target.memoID, inserted.fresh, recorded ▸ inserted.rows⟩

end Mutation

/-! ### The requests -/

section Requests

variable {service : APIV1Service} {db db' : Tables} {now authUserID : Int} {newUID : String}

theorem bind_created {α β : Type} {x : Except CreateError α} {f : α → Except CreateError β} {b : β} :
    (x >>= f) = .ok b ↔ ∃ a, x = .ok a ∧ f a = .ok b := by
  cases x with
  | error e => simp [bind, Except.bind]
  | ok a => simp [bind, Except.bind]

/-- The memos there were, and the one that was created, under a new id. -/
structure Created (db db' : Tables) (created : Option MemoRow) : Prop where
  kept : ∀ other ∈ db.memos, other ∈ db'.memos
  fresh : ∀ memo, created = some memo → ∀ other ∈ db.memos, other.id ≠ memo.id

variable {created : Option MemoRow}

theorem createMemoWithMutation_creates {context : Option Int} {prepared : PreparedMemoCreate}
    {operation : String}
    (h : service.createMemoWithMutation db now context prepared operation = .ok (db', created)) :
    Created db db' created := by
  unfold APIV1Service.createMemoWithMutation at h
  split at h
  · rename_i written applied
    injection h with h
    injection h with tables found
    obtain ⟨id, fresh, rows⟩ := applyMemoMutation_creates rfl rfl applied
    rw [tables] at rows found
    have row : prepared.memo.row id now ∈ db'.memos := by
      rw [Keyed.Table.mem_def, rows]
      exact List.mem_append_right _ (List.mem_singleton_self _)
    have same : ∀ memo, created = some memo → memo = prepared.memo.row id now := by
      intro memo is
      obtain ⟨stored, -, uid⟩ := mem_of_getMemo (found.trans is)
      exact Keyed.Table.eq_of_clash stored row (by simp [MemoRow.schema, MemoCreate.row, uid])
        (by simp [MemoRow.schema, MemoCreate.row, uid])
    refine ⟨fun other there => ?_, fun memo is => ?_⟩
    · rw [Keyed.Table.mem_def, rows]
      exact List.mem_append_left _ there
    · rw [same memo is]
      exact fresh
  · cases h

theorem prepareMemoCreate_creator {user : UserRow} {input : ProtoMemo} {uid : String}
    {prepared : PreparedMemoCreate}
    (h : service.prepareMemoCreate db now authUserID user input uid = .ok prepared) :
    prepared.memo.creatorID = user.id := by
  unfold APIV1Service.prepareMemoCreate at h
  obtain ⟨_, -, h⟩ := bind_accepted.mp h
  obtain ⟨_, -, h⟩ := bind_accepted.mp h
  obtain ⟨_, -, h⟩ := bind_accepted.mp h
  obtain ⟨visibility, -, h⟩ := bind_accepted.mp h
  obtain ⟨spaceID, -, h⟩ := bind_accepted.mp h
  obtain ⟨_, -, h⟩ := bind_accepted.mp h
  obtain ⟨_, -, h⟩ := bind_accepted.mp h
  obtain ⟨_, -, h⟩ := bind_accepted.mp h
  obtain ⟨data, -, h⟩ := bind_accepted.mp h
  obtain ⟨_, -, h⟩ := bind_accepted.mp h
  obtain ⟨category, -, h⟩ := bind_accepted.mp h
  obtain ⟨_, -, h⟩ := bind_accepted.mp h
  obtain ⟨attachments, -, h⟩ := bind_accepted.mp h
  obtain ⟨required, -, h⟩ := bind_accepted.mp h
  obtain ⟨_, -, h⟩ := bind_accepted.mp h
  obtain ⟨_, -, h⟩ := bind_accepted.mp h
  obtain ⟨relations, -, h⟩ := bind_accepted.mp h
  rw [pure_accepted] at h
  rw [← h]

theorem createMemo_creates {cooldown : Int} {request : CreateMemoRequest}
    (h : service.createMemo db now authUserID cooldown newUID request = .ok (db', created)) :
    Created db db' created := by
  obtain ⟨user, -, h⟩ := bind_created.mp h
  obtain ⟨input, -, h⟩ := bind_created.mp h
  obtain ⟨_, -, h⟩ := bind_created.mp h
  obtain ⟨uid, -, h⟩ := bind_created.mp h
  obtain ⟨prepared, -, h⟩ := bind_created.mp h
  exact createMemoWithMutation_creates h

theorem createMemoComment_creates {request : CreateMemoCommentRequest} {relatedMemo : MemoRow}
    (h : service.createMemoComment db now authUserID newUID request
      = .ok (db', created, relatedMemo)) : Created db db' created := by
  obtain ⟨⟨related, user⟩, -, h⟩ := bind_created.mp h
  obtain ⟨comment, -, h⟩ := bind_created.mp h
  obtain ⟨message, -, h⟩ := bind_created.mp h
  obtain ⟨uid, -, h⟩ := bind_created.mp h
  obtain ⟨_, -, h⟩ := bind_created.mp h
  obtain ⟨prepared, -, h⟩ := bind_created.mp h
  obtain ⟨⟨written, memo⟩, create, h⟩ := bind_created.mp h
  injection h with h
  injection h with tables h
  injection h with same _
  rw [tables, same] at create
  exact createMemoWithMutation_creates create

end Requests

end Memos.Api
