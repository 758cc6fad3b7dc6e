/-
What a mutation of a memo does to attachments.

The required attachments are checked after everything else has been done to the
attachments, and nothing is done to them afterwards.  The rest follows from what one
round of each loop can change.  A binding moves an attachment only if it is free and
belongs to the creator of the memo, whether or not an earlier round has moved it; a
removal only takes away.
-/
import Memos.Store.MemoAttachment
import Memos.Proofs.Store.Delete

namespace Memos.Store

open Keyed

/-! ### Rounds -/

/-- An attachment before and after some rounds: if it was moved, it was moved to the memo,
was free, and belongs to the creator. -/
structure Rebound (memoID creatorID : Int) (a a' : AttachmentRow) : Prop where
  id : a'.id = a.id
  creator : a'.creatorID = a.creatorID
  moved : a'.memoID = a.memoID ∨
    (a.memoID = none ∧ a.creatorID = creatorID ∧ a'.memoID = some memoID)

/-- The attachments before and after some rounds that name the given ids. -/
structure Rebinds (memoID creatorID : Int) (ids : List Int) (t t' : Table AttachmentRow.schema) :
    Prop where
  source : ∀ a' ∈ t', ∃ a ∈ t, Rebound memoID creatorID a a'
  others : ∀ a, a.id ∉ ids → (a ∈ t' ↔ a ∈ t)

section Rounds

variable {memoID creatorID : Int} {ids ids' : List Int} {t u v : Table AttachmentRow.schema}

theorem Rebound.refl (a : AttachmentRow) : Rebound memoID creatorID a a :=
  ⟨rfl, rfl, .inl rfl⟩

theorem Rebound.trans {a b c : AttachmentRow} (first : Rebound memoID creatorID a b)
    (second : Rebound memoID creatorID b c) : Rebound memoID creatorID a c := by
  refine ⟨second.id.trans first.id, second.creator.trans first.creator, ?_⟩
  rcases second.moved with same | ⟨free, creator, moved⟩
  · rw [same]
    exact first.moved
  · rcases first.moved with same | ⟨-, -, bound⟩
    · exact .inr ⟨same.symm.trans free, first.creator.symm.trans creator, moved⟩
    · rw [free] at bound
      cases bound

theorem Rebinds.refl (t : Table AttachmentRow.schema) : Rebinds memoID creatorID [] t t :=
  ⟨fun a ha => ⟨a, ha, .refl a⟩, fun _ _ => Iff.rfl⟩

theorem Rebinds.trans (first : Rebinds memoID creatorID ids t u)
    (second : Rebinds memoID creatorID ids' u v) : Rebinds memoID creatorID (ids ++ ids') t v := by
  refine ⟨fun c hc => ?_, fun a other => ?_⟩
  · obtain ⟨b, hb, last⟩ := second.source c hc
    obtain ⟨a, ha, early⟩ := first.source b hb
    exact ⟨a, ha, early.trans last⟩
  · rw [List.mem_append, not_or] at other
    rw [second.others a other.2, first.others a other.1]

theorem bindAttachment_spec {binding : MemoAttachmentBinding}
    (h : bindAttachment memoID creatorID t binding = .ok u) :
    Rebinds memoID creatorID [binding.id] t u := by
  obtain ⟨a, found, h⟩ := bind_eq_ok.mp h
  rw [orElse_eq_ok, Table.find?_eq_some] at found
  obtain ⟨stored, named⟩ := found
  have named : a.id = binding.id := named
  have free : a.memoID = some memoID ∨ (a.memoID = none ∧ a.creatorID = creatorID) := by
    split at h
    · obtain ⟨_, bound, -⟩ := bind_eq_ok.mp h
      rw [require_eq_ok, decide_eq_true_eq] at bound
      exact .inl bound
    · obtain ⟨_, available, -⟩ := bind_eq_ok.mp h
      rw [require_eq_ok, Bool.and_eq_true, decide_eq_true_eq, Option.isNone_iff_eq_none]
        at available
      exact .inr available.symm
  have written : constrained (.Constraint .unique) (t.update (fun a => decide (a.id = binding.id))
      fun a => { a with memoID := some memoID, updatedTs := binding.updatedTs }) = .ok u := by
    split at h
    · exact (bind_eq_ok.mp h).choose_spec.2
    · exact (bind_eq_ok.mp h).choose_spec.2
  have rows := fun r : AttachmentRow => @Table.mem_update _ _ _ t u _ _ r (of_constrained written)
  refine ⟨fun b hb => ?_, fun b other => ?_⟩
  · obtain ⟨s, hs, rfl⟩ := (rows b).mp hb
    refine ⟨s, hs, ?_⟩
    split
    · rename_i target
      have same : s = a :=
        Table.eq_of_key hs stored ((of_decide_eq_true target).trans named.symm)
      rw [same]
      refine ⟨rfl, rfl, ?_⟩
      rcases free with bound | available
      · exact .inl bound.symm
      · exact .inr ⟨available.1, available.2, rfl⟩
    · exact .refl s
  · rw [List.mem_singleton] at other
    rw [rows]
    constructor
    · rintro ⟨s, hs, rfl⟩
      split at other
      · rename_i target
        exact absurd (of_decide_eq_true target) other
      · rename_i target
        rw [if_neg target]
        exact hs
    · intro hb
      exact ⟨b, hb, if_neg fun target => other (of_decide_eq_true target)⟩

theorem bindings_spec {bindings : List MemoAttachmentBinding}
    (h : bindings.foldlM (bindAttachment memoID creatorID) t = .ok u) :
    Rebinds memoID creatorID (bindings.map MemoAttachmentBinding.id) t u := by
  induction bindings generalizing t with
  | nil =>
      rw [List.foldlM_nil, pure_eq_ok] at h
      rw [h]
      exact .refl u
  | cons binding bindings ih =>
      rw [List.foldlM_cons, bind_eq_ok] at h
      obtain ⟨between, round, rest⟩ := h
      exact (bindAttachment_spec round).trans (ih rest)

theorem mem_removeAttachment {removed : AttachmentRow}
    (h : removeAttachment memoID t removed = .ok u) (a : AttachmentRow) :
    a ∈ u ↔ a ∈ t ∧ ¬ (a.id = removed.id ∧ a.memoID = some memoID) := by
  obtain ⟨_, -, h⟩ := bind_eq_ok.mp h
  rw [pure_eq_ok] at h
  rw [← h, Table.mem_delete, ← Bool.not_eq_true, Bool.and_eq_true, decide_eq_true_eq,
    decide_eq_true_eq]

theorem mem_removals {removed : List AttachmentRow}
    (h : removed.foldlM (removeAttachment memoID) t = .ok u) (a : AttachmentRow) :
    a ∈ u ↔ a ∈ t ∧ ¬ (a.id ∈ removed.map AttachmentRow.id ∧ a.memoID = some memoID) := by
  induction removed generalizing t with
  | nil =>
      rw [List.foldlM_nil, pure_eq_ok] at h
      rw [h]
      simp
  | cons r removed ih =>
      rw [List.foldlM_cons, bind_eq_ok] at h
      obtain ⟨between, round, rest⟩ := h
      rw [ih rest, mem_removeAttachment round, and_assoc, ← not_or, ← or_and_right,
        List.map_cons, List.mem_cons]

end Rounds

/-! ### Attachments -/

section Attachments

variable {readable : String → Bool} {db : Tables} {mutation : MemoMutation}
  {t : Table AttachmentRow.schema}

theorem listSQLiteAttachmentSnapshots_spec {ids : List Int} {found : List AttachmentRow}
    (h : listSQLiteAttachmentSnapshots readable db ids = .ok found) (a : AttachmentRow) :
    a ∈ found ↔ a ∈ db.attachments ∧ a.id ∈ ids := by
  have query : ∀ b, b ∈ (deleteUserBatches ids deleteUserBatchSize).flatMap (fun batch =>
      (db.attachments.select fun a => batch.contains a.id).insertionSort fun a b => a.id ≤ b.id) ↔
      b ∈ db.attachments ∧ b.id ∈ ids := by
    intro b
    rw [List.mem_flatMap]
    simp only [List.mem_insertionSort, Table.mem_select, List.contains_iff_mem]
    constructor
    · rintro ⟨batch, hbatch, stored, mem⟩
      refine ⟨stored, ?_⟩
      rw [← flatten_deleteUserBatches ids deleteUserBatchSize]
      exact List.mem_flatten_of_mem hbatch mem
    · rintro ⟨stored, mem⟩
      rw [← flatten_deleteUserBatches ids deleteUserBatchSize] at mem
      obtain ⟨batch, hbatch, mem⟩ := List.mem_flatten.mp mem
      exact ⟨batch, hbatch, stored, mem⟩
  rw [(appended_batches h).mem_iff fun b hb => ((query b).mp hb).1, query]

/-- What is known of the attachments when the mutation has done with them. -/
structure AttachmentsMutated (mutation : MemoMutation) (t t' : Table AttachmentRow.schema) :
    Prop where
  rebinds : Rebinds mutation.memoID mutation.memoCreatorID
    (mutation.bindings.map MemoAttachmentBinding.id ++ mutation.removedAttachmentIDs) t t'
  removed : ∀ a ∈ t', a.id ∈ mutation.removedAttachmentIDs → a.memoID ≠ some mutation.memoID
  required : ∀ id ∈ mutation.requiredAttachmentIDs,
    ∃ a ∈ t', a.id = id ∧ a.memoID = some mutation.memoID

theorem mutateAttachments_spec (h : mutateAttachments readable db mutation = .ok t) :
    AttachmentsMutated mutation db.attachments t := by
  obtain ⟨removed, list, h⟩ := bind_eq_ok.mp h
  obtain ⟨_, -, h⟩ := bind_eq_ok.mp h
  obtain ⟨_, -, h⟩ := bind_eq_ok.mp h
  obtain ⟨bound, bindings, h⟩ := bind_eq_ok.mp h
  obtain ⟨left, removals, h⟩ := bind_eq_ok.mp h
  obtain ⟨_, required, h⟩ := bind_eq_ok.mp h
  rw [pure_eq_ok] at h
  rw [h] at removals required
  have binds := bindings_spec bindings
  have listed := listSQLiteAttachmentSnapshots_spec list
  have mem := mem_removals removals
  -- an id that was asked for is the id of a row that was read, if there is a row
  have named : ∀ a ∈ bound,
      a.id ∈ removed.map AttachmentRow.id ↔ a.id ∈ mutation.removedAttachmentIDs := by
    intro a ha
    rw [List.mem_map]
    constructor
    · rintro ⟨b, hb, same⟩
      rw [← same]
      exact ((listed b).mp hb).2
    · intro asked
      obtain ⟨source, stored, rebound⟩ := binds.source a ha
      refine ⟨source, (listed source).mpr ⟨stored, ?_⟩, rebound.id.symm⟩
      rw [← rebound.id]
      exact asked
  have removes : Rebinds mutation.memoID mutation.memoCreatorID mutation.removedAttachmentIDs
      bound t := by
    refine ⟨fun a ha => ⟨a, ((mem a).mp ha).1, .refl a⟩, fun a other => ?_⟩
    rw [mem]
    exact and_iff_left_of_imp fun ha gone => other ((named a ha).mp gone.1)
  refine ⟨binds.trans removes, fun a ha asked still => ?_, fun id hid => ?_⟩
  · obtain ⟨stored, stays⟩ := (mem a).mp ha
    exact stays ⟨(named a stored).mpr asked, still⟩
  · rw [require_eq_ok, List.all_eq_true] at required
    obtain ⟨a, ha, row⟩ := Table.any_eq_true.mp (required id hid)
    rw [Bool.and_eq_true, decide_eq_true_eq, decide_eq_true_eq] at row
    exact ⟨a, ha, row⟩

end Attachments

/-! ### The memo -/

/-- A row before and after the memo was updated. -/
structure SameOwner (memo memo' : MemoRow) : Prop where
  id : memo'.id = memo.id
  creator : memo'.creatorID = memo.creatorID

def KeepsMemos (state state' : State) : Prop :=
  ∀ memo ∈ state.memos, ∃ memo' ∈ state'.memos, SameOwner memo memo'

theorem keepsMemos_refl (state : State) : KeepsMemos state state :=
  fun memo h => ⟨memo, h, rfl, rfl⟩

theorem exists_mem_update (rel : MemoRow → MemoRow → Prop) {t t' : Table MemoRow.schema}
    {p : MemoRow → Bool} {f : MemoRow → MemoRow} (h : t.update p f = .ok t')
    (refl : ∀ memo, rel memo memo) (written : ∀ memo, rel memo (f memo)) {memo : MemoRow}
    (stored : memo ∈ t) : ∃ memo' ∈ t', rel memo memo' := by
  refine ⟨_, (Table.mem_update h).mpr ⟨memo, stored, rfl⟩, ?_⟩
  split
  · exact written memo
  · exact refl memo

theorem captureMemoRevision_keeps {state state' : State} {now : Int} {update : UpdateMemo}
    (h : captureMemoRevision state now update = .ok state') : KeepsMemos state state' := by
  unfold captureMemoRevision at h
  split at h
  · split at h
    · injection h with h
      exact h ▸ keepsMemos_refl state
    · obtain ⟨memo, -, h⟩ := bind_eq_ok.mp h
      dsimp only at h
      split at h
      · rw [pure_eq_ok] at h
        exact h ▸ keepsMemos_refl state
      · obtain ⟨revisions, -, h⟩ := bind_eq_ok.mp h
        obtain ⟨memos, written, h⟩ := bind_eq_ok.mp h
        rw [pure_eq_ok] at h
        rw [← h]
        exact fun memo stored => exists_mem_update SameOwner (of_constrained written)
          (fun _ => ⟨rfl, rfl⟩) (fun _ => ⟨rfl, rfl⟩) stored
  · injection h with h
    exact h ▸ keepsMemos_refl state

theorem applyMemoUpdate_keeps {state state' : State} {now : Int} {update : UpdateMemo}
    (h : applyMemoUpdate state now update = .ok state') : KeepsMemos state state' := by
  obtain ⟨between, captured, h⟩ := bind_eq_ok.mp h
  have kept := captureMemoRevision_keeps captured
  split at h
  · rw [pure_eq_ok] at h
    exact h ▸ kept
  · obtain ⟨memos, written, h⟩ := bind_eq_ok.mp h
    rw [pure_eq_ok] at h
    rw [← h]
    intro memo stored
    obtain ⟨memo₁, stored₁, first⟩ := kept memo stored
    obtain ⟨memo₂, stored₂, second⟩ := exists_mem_update SameOwner
      (of_constrained written) (fun _ => ⟨rfl, rfl⟩) (fun _ => ⟨rfl, rfl⟩) stored₁
    exact ⟨memo₂, stored₂, second.id.trans first.id, second.creator.trans first.creator⟩

section Driver

variable {importHash : String → String} {db db' : Tables} {now : Int}
  {mutation mutation' : MemoMutation}

theorem recordMemoImport_spec (h : recordMemoImport importHash db now mutation = .ok db') :
    db'.attachments = db.attachments ∧ ∀ memo ∈ db.memos, ∃ memo' ∈ db'.memos,
      SameOwner memo memo' ∧ memo'.uid = memo.uid := by
  unfold recordMemoImport at h
  split at h
  · injection h with h
    rw [← h]
    exact ⟨rfl, fun memo stored => ⟨memo, stored, ⟨rfl, rfl⟩, rfl⟩⟩
  · obtain ⟨create, -, h⟩ := bind_eq_ok.mp h
    obtain ⟨_, -, h⟩ := bind_eq_ok.mp h
    obtain ⟨actor, -, h⟩ := bind_eq_ok.mp h
    obtain ⟨_, -, h⟩ := bind_eq_ok.mp h
    obtain ⟨memos, written, h⟩ := bind_eq_ok.mp h
    obtain ⟨imports, -, h⟩ := bind_eq_ok.mp h
    rw [pure_eq_ok] at h
    rw [← h]
    refine ⟨rfl, fun memo stored => ?_⟩
    exact exists_mem_update (fun memo memo' => SameOwner memo memo' ∧ memo'.uid = memo.uid)
      (of_constrained written) (fun _ => ⟨⟨rfl, rfl⟩, rfl⟩) (fun _ => ⟨⟨rfl, rfl⟩, rfl⟩) stored

theorem replaceMemoReferenceRelations_spec {memoID : Int} {relations : List MemoRelationRow}
    (h : replaceMemoReferenceRelations db memoID relations = .ok db') :
    db'.attachments = db.attachments ∧ db'.memos = db.memos := by
  obtain ⟨relations, -, h⟩ := bind_eq_ok.mp h
  rw [pure_eq_ok] at h
  rw [← h]
  exact ⟨rfl, rfl⟩

/-- The mutation asks the same of the attachments and of the memo. -/
structure SameRequest (mutation mutation' : MemoMutation) : Prop where
  create : mutation'.memoCreate = mutation.memoCreate
  update : mutation'.memoUpdate = mutation.memoUpdate
  bindings : mutation'.bindings = mutation.bindings
  removed : ∀ id, id ∈ mutation'.removedAttachmentIDs ↔ id ∈ mutation.removedAttachmentIDs
  required : mutation'.requiredAttachmentIDs = mutation.requiredAttachmentIDs

/-- The memo the mutation is about: the one it names, or the one it creates, which then has
a new id. -/
structure Target (db : Tables) (mutation : MemoMutation) (memo : MemoRow) : Prop where
  updated : mutation.memoCreate = none → memo.id = mutation.memoID
  created : ∀ create, mutation.memoCreate = some create →
    memo.uid = create.uid ∧ memo.creatorID = create.creatorID ∧ ∀ m ∈ db.memos, m.id ≠ memo.id

theorem insertSQLiteMemo_spec {create : MemoCreate} {id : Int}
    (h : insertSQLiteMemo db now create = .ok (db', id)) :
    db'.attachments = db.attachments ∧ create.row id now ∈ db'.memos ∧ ∀ m ∈ db.memos, m.id ≠ id := by
  obtain ⟨memos, inserted, h⟩ := bind_eq_ok.mp h
  rw [pure_eq_ok] at h
  injection h with h fresh
  rw [← h, ← fresh]
  refine ⟨rfl, (Table.mem_insert (of_constrained inserted)).mpr (.inr rfl), fun m stored same => ?_⟩
  have used : m.id ∈ db.memos.rows.map MemoRow.id := List.mem_map_of_mem stored
  have below : m.id < nextID db.memoSequence (db.memos.rows.map MemoRow.id) := lt_nextID used
  exact absurd same (Int.ne_of_lt below)

theorem createMutationMemo_spec (h : createMutationMemo db now mutation = .ok (db', mutation')) :
    db'.attachments = db.attachments ∧ SameRequest mutation mutation' ∧
      (mutation.memoCreate = none → mutation'.memoID = mutation.memoID) ∧
      ∀ create, mutation.memoCreate = some create → ∃ memo ∈ db'.memos,
        memo.id = mutation'.memoID ∧ Target db mutation memo := by
  unfold createMutationMemo at h
  split at h
  · rename_i updating
    injection h with h
    injection h with tables same
    rw [← tables, ← same]
    refine ⟨rfl, ⟨rfl, rfl, rfl, fun _ => Iff.rfl, rfl⟩, fun _ => rfl, fun create creating => ?_⟩
    rw [updating] at creating
    cases creating
  · rename_i create creating
    obtain ⟨_, -, h⟩ := bind_eq_ok.mp h
    obtain ⟨_, -, h⟩ := bind_eq_ok.mp h
    obtain ⟨⟨inserted, memoID⟩, insert, h⟩ := bind_eq_ok.mp h
    obtain ⟨related, relate, h⟩ := bind_eq_ok.mp h
    rw [pure_eq_ok] at h
    injection h with tables same
    rw [tables] at relate
    obtain ⟨attachments, row, fresh⟩ := insertSQLiteMemo_spec insert
    have relate : db'.attachments = inserted.attachments ∧ db'.memos = inserted.memos := by
      cases context : mutation.commentContextMemoID with
      | none =>
          rw [context] at relate
          injection relate with relate
          rw [relate]
          exact ⟨rfl, rfl⟩
      | some contextMemoID =>
          rw [context] at relate
          obtain ⟨_, -, relate⟩ := bind_eq_ok.mp relate
          obtain ⟨relations, -, relate⟩ := bind_eq_ok.mp relate
          rw [pure_eq_ok] at relate
          rw [← relate]
          exact ⟨rfl, rfl⟩
    rw [← same]
    refine ⟨relate.1.trans attachments, ⟨rfl, rfl, rfl, fun _ => Iff.rfl, rfl⟩,
      fun updating => ?_, fun created hcreated => ⟨create.row memoID now, ?_, rfl, ?_⟩⟩
    · rw [updating] at creating
      cases creating
    · rw [relate.2]
      exact row
    · refine ⟨fun updating => ?_, fun other hother => ?_⟩
      · rw [updating] at creating
        cases creating
      · rw [creating] at hother
        injection hother with hother
        rw [← hother]
        exact ⟨rfl, rfl, fresh⟩

/-- In front of the driver a mutation is checked, and its removed ids are sorted; one that
creates a memo is about that memo. -/
theorem prepareMemoMutation_ok {validUID : String → Bool}
    (h : prepareMemoMutation validUID mutation = .ok mutation') :
    ∃ filled, mutation' = { filled with
        removedAttachmentIDs := filled.removedAttachmentIDs.insertionSort (· ≤ ·) } ∧
      (mutation.memoCreate = none ∧ filled = mutation ∨
        ∃ create, mutation.memoCreate = some create ∧ mutation.memoUpdate = none ∧
          filled = { mutation with
            memoCreatorID := create.creatorID, expectedMemoContent := create.content }) := by
  obtain ⟨filled, fill, h⟩ := bind_eq_ok.mp h
  obtain ⟨_, -, h⟩ := bind_eq_ok.mp h
  obtain ⟨_, -, h⟩ := bind_eq_ok.mp h
  obtain ⟨_, -, h⟩ := bind_eq_ok.mp h
  obtain ⟨_, -, h⟩ := bind_eq_ok.mp h
  obtain ⟨_, -, h⟩ := bind_eq_ok.mp h
  obtain ⟨_, -, h⟩ := bind_eq_ok.mp h
  rw [pure_eq_ok] at h
  refine ⟨filled, h.symm, ?_⟩
  cases creating : mutation.memoCreate with
  | none =>
      rw [creating] at fill
      injection fill with fill
      exact .inl ⟨rfl, fill.symm⟩
  | some create =>
      rw [creating] at fill
      obtain ⟨_, alone, fill⟩ := bind_eq_ok.mp fill
      obtain ⟨_, -, fill⟩ := bind_eq_ok.mp fill
      obtain ⟨_, -, fill⟩ := bind_eq_ok.mp fill
      obtain ⟨_, -, fill⟩ := bind_eq_ok.mp fill
      rw [pure_eq_ok] at fill
      rw [require_eq_ok, Bool.and_eq_true, Bool.and_eq_true, Option.isNone_iff_eq_none] at alone
      refine .inr ⟨create, rfl, alone.1.1, ?_⟩
      rw [← fill, creating]

theorem prepareMemoMutation_spec {validUID : String → Bool}
    (h : prepareMemoMutation validUID mutation = .ok mutation') :
    SameRequest mutation mutation' ∧ mutation'.memoID = mutation.memoID ∧
      (mutation.memoCreate.isSome = true → mutation.memoUpdate = none) := by
  obtain ⟨filled, rfl, ⟨creating, rfl⟩ | ⟨create, -, alone, rfl⟩⟩ := prepareMemoMutation_ok h
  · refine ⟨⟨rfl, rfl, rfl, fun _ => List.mem_insertionSort _, rfl⟩, rfl, fun some => ?_⟩
    rw [creating] at some
    cases some
  · exact ⟨⟨rfl, rfl, rfl, fun _ => List.mem_insertionSort _, rfl⟩, rfl, fun _ => alone⟩

end Driver

/-! ### Mutations as a whole -/

/-- What holds of the attachments after a mutation of the memo. -/
structure MutationApplied (db db' : Tables) (mutation : MemoMutation) (memo : MemoRow) : Prop where
  required : ∀ id ∈ mutation.requiredAttachmentIDs,
    ∃ a ∈ db'.attachments, a.id = id ∧ a.memoID = some memo.id
  removed : ∀ id ∈ mutation.removedAttachmentIDs,
    ∀ a ∈ db'.attachments, a.id = id → a.memoID ≠ some memo.id
  /-- What was taken was free and belongs to the creator of the memo. -/
  taken : ∀ a ∈ db.attachments, ∀ a' ∈ db'.attachments, a'.id = a.id → a'.memoID ≠ a.memoID →
    a.memoID = none ∧ a.creatorID = memo.creatorID ∧ a'.memoID = some memo.id
  unnamed : ∀ a, (∀ binding ∈ mutation.bindings, binding.id ≠ a.id) →
    a.id ∉ mutation.removedAttachmentIDs → (a ∈ db'.attachments ↔ a ∈ db.attachments)

theorem MutationApplied.of_mutated {db db' : Tables} {mutation mutation' : MemoMutation}
    {memo : MemoRow} (same : SameRequest mutation mutation')
    (mutated : AttachmentsMutated mutation' db.attachments db'.attachments)
    (id : memo.id = mutation'.memoID) (creator : memo.creatorID = mutation'.memoCreatorID) :
    MutationApplied db db' mutation memo := by
  refine ⟨?_, ?_, ?_, ?_⟩
  · rw [← same.required, id]
    exact mutated.required
  · intro asked hasked a ha named
    rw [id]
    exact mutated.removed a ha ((same.removed a.id).mpr (named ▸ hasked))
  · intro a ha a' ha' named changed
    obtain ⟨source, stored, rebound⟩ := mutated.rebinds.source a' ha'
    rw [Table.eq_of_key stored ha (rebound.id.symm.trans named)] at rebound
    rw [id, creator]
    exact rebound.moved.resolve_left changed
  · intro a unbound unremoved
    refine mutated.rebinds.others a fun named => ?_
    rcases List.mem_append.mp named with named | named
    · rw [same.bindings] at named
      obtain ⟨binding, hbinding, named⟩ := List.mem_map.mp named
      exact unbound binding hbinding named
    · exact unremoved ((same.removed a.id).mp named)

theorem policyMemo_eq_some {state : State} {memoID : Int} {memo : MemoRow}
    (h : policyMemo state memoID = some memo) : memo ∈ state.memos ∧ memo.id = memoID := by
  unfold policyMemo at h
  rw [Option.filter_eq_some_iff, Table.find?_eq_some] at h
  exact h.1

theorem driverApplyMemoMutation_spec {readable : String → Bool} {importHash : String → String}
    {db db' : Tables} {now : Int} {mutation : MemoMutation}
    (alone : mutation.memoCreate.isSome = true → mutation.memoUpdate = none)
    (h : driverApplyMemoMutation readable importHash db now mutation = .ok db') :
    ∃ memo ∈ db'.memos, Target db mutation memo ∧ MutationApplied db db' mutation memo := by
  obtain ⟨_, -, h⟩ := bind_eq_ok.mp h
  obtain ⟨⟨created, mutation'⟩, create, h⟩ := bind_eq_ok.mp h
  obtain ⟨_, -, h⟩ := bind_eq_ok.mp h
  obtain ⟨memo, found, h⟩ := bind_eq_ok.mp h
  obtain ⟨_, expected, h⟩ := bind_eq_ok.mp h
  obtain ⟨attachments, mutate, h⟩ := bind_eq_ok.mp h
  obtain ⟨state, update, h⟩ := bind_eq_ok.mp h
  obtain ⟨related, relate, imported⟩ := bind_eq_ok.mp h
  obtain ⟨untouched, same, updated, target⟩ := createMutationMemo_spec create
  rw [orElse_eq_ok] at found
  obtain ⟨stored, id⟩ := policyMemo_eq_some found
  rw [require_eq_ok, Bool.and_eq_true, decide_eq_true_eq] at expected
  have mutated := mutateAttachments_spec mutate
  rw [untouched] at mutated
  -- the row of the memo, followed through the statements after the attachments
  have first : ∃ memo₁ ∈ state.memos, SameOwner memo memo₁ ∧
      (mutation.memoUpdate = none → memo₁ = memo) := by
    cases updating : mutation'.memoUpdate with
    | none =>
        rw [updating] at update
        injection update with update
        rw [← update]
        exact ⟨memo, stored, ⟨rfl, rfl⟩, fun _ => rfl⟩
    | some change =>
        rw [updating] at update
        obtain ⟨_, -, update⟩ := bind_eq_ok.mp update
        obtain ⟨memo₁, stored₁, owner⟩ := applyMemoUpdate_keeps update memo stored
        refine ⟨memo₁, stored₁, owner, fun no_update => ?_⟩
        rw [← same.update, updating] at no_update
        cases no_update
  obtain ⟨memo₁, stored₁, owner₁, row₁⟩ := first
  have relate : related.attachments = attachments ∧ related.memos = state.memos := by
    split at relate
    · exact replaceMemoReferenceRelations_spec relate
    · injection relate with relate
      rw [← relate]
      exact ⟨rfl, rfl⟩
  obtain ⟨kept, rows⟩ := recordMemoImport_spec imported
  obtain ⟨memo₂, stored₂, owner₂, uid₂⟩ := rows memo₁ (relate.2 ▸ stored₁)
  have id₂ : memo₂.id = memo.id := owner₂.id.trans owner₁.id
  have creator₂ : memo₂.creatorID = memo.creatorID := owner₂.creator.trans owner₁.creator
  refine ⟨memo₂, stored₂, ⟨fun updating => ?_, fun created creating => ?_⟩, ?_⟩
  · rw [id₂, id, updated updating]
  · obtain ⟨row, hrow, hid, about⟩ := target created creating
    have same_row : row = memo := Table.eq_of_key hrow stored (hid.trans id.symm)
    rw [same_row] at about
    obtain ⟨uid, creator, fresh⟩ := about.created created creating
    have no_update : mutation.memoUpdate = none := alone (by rw [creating]; rfl)
    refine ⟨?_, creator₂.trans creator, fun m hm => ?_⟩
    · rw [uid₂, row₁ no_update, uid]
    · rw [id₂]
      exact fresh m hm
  · rw [← relate.1, ← kept] at mutated
    exact .of_mutated same mutated (id₂.trans id) (creator₂.trans expected.1)

theorem SameRequest.applied {db db' : Tables} {mutation mutation' : MemoMutation} {memo : MemoRow}
    (same : SameRequest mutation mutation') (h : MutationApplied db db' mutation' memo) :
    MutationApplied db db' mutation memo := by
  obtain ⟨required, removed, taken, unnamed⟩ := h
  rw [same.required] at required
  rw [same.bindings] at unnamed
  refine ⟨required, fun id asked => removed id ((same.removed id).mpr asked), taken,
    fun a unbound unremoved => unnamed a unbound ?_⟩
  exact fun named => unremoved ((same.removed a.id).mp named)

/-- A mutation fails and changes nothing, or is applied as a whole. -/
theorem memo_mutation_applied (validUID readable : String → Bool) (importHash : String → String)
    (db : Tables) (now : Int) (mutation : MemoMutation) (interrupted : Bool) :
    performMemoMutation validUID readable importHash db now mutation interrupted = (db, false) ∨
      ∃ db', performMemoMutation validUID readable importHash db now mutation interrupted
        = (db', true) ∧
      ∃ memo ∈ db'.memos, Target db mutation memo ∧ MutationApplied db db' mutation memo := by
  unfold performMemoMutation
  split
  · rename_i db' applied
    obtain ⟨mutation', prepare, drive⟩ := bind_eq_ok.mp applied
    obtain ⟨same, memoID, alone⟩ := prepareMemoMutation_spec prepare
    rw [← same.create, ← same.update] at alone
    obtain ⟨memo, stored, target, done⟩ := driverApplyMemoMutation_spec alone drive
    refine .inr ⟨db', rfl, memo, stored, ⟨?_, ?_⟩, same.applied done⟩
    · rw [← same.create, ← memoID]
      exact target.updated
    · rw [← same.create]
      exact target.created
  · exact .inl rfl

/-- A mutation that names the attachment of the poll twice, and requires it. -/
def twiceBound (wasBound : Bool) : MemoMutation :=
  { importRecord := none, memoCreate := none, commentContextMemoID := none, memoID := 7,
    memoCreatorID := 4, expectedMemoContent := "", memoUpdate := none,
    bindings := [⟨3, "menu", 1, true⟩, ⟨3, "menu", 2, wasBound⟩], removedAttachmentIDs := [],
    requiredAttachmentIDs := [3, 3], replaceReferenceRelations := false, referenceRelations := [],
    policy := none }

example : (performMemoMutation (fun _ => true) (fun _ => true) id pollTables 0
    (twiceBound true) false).2 = true := rfl

example : (performMemoMutation (fun _ => true) (fun _ => true) id pollTables 0
    (twiceBound false) false).2 = false := rfl

end Memos.Store
