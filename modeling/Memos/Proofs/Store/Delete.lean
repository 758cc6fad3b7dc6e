/-
What a hard deletion leaves behind.

The three deletions differ in their statements and agree in what they are for: a row
that belongs to what is deleted goes, every other row stays, and the attachments that go
are queued.  A footprint says which memos, users and Spaces a deletion is about, and
every table of the result is given by it.

Five tables that refer to memos have no statement in any of the deletions: the votes of
a poll, the bookmarks, and the three tables of the moderation.  Nothing else is left, so
a deletion is clean exactly when these have no row for a memo it deletes.
-/
import Memos.Store.Delete

namespace Memos.Store

open Keyed

/-! ### Batches -/

theorem flatten_slices {α : Type} (values : List α) (size n : Nat) :
    ((List.range n).map fun i => (values.drop (i * size)).take size).flatten
      = values.take (n * size) := by
  induction n with
  | zero => simp
  | succ n ih =>
      rw [List.range_succ, List.map_append, List.flatten_append, ih, Nat.succ_mul, List.take_add]
      simp

theorem flatten_deleteUserBatches {α : Type} (values : List α) (size : Nat) :
    (deleteUserBatches values size).flatten = values := by
  unfold deleteUserBatches
  dsimp only
  rw [flatten_slices]
  refine List.take_of_length_le ?_
  by_cases empty : values = []
  · simp [empty]
  · have pos : 0 < values.length := List.length_pos_iff.mpr empty
    generalize hsize : (if size = 0 then values.length else size) = step
    have hstep : 0 < step := by
      rw [← hsize]
      split
      · exact pos
      · omega
    have split := Nat.div_add_mod (values.length + step - 1) step
    have small := Nat.mod_lt (values.length + step - 1) hstep
    rw [Nat.mul_comm] at split
    omega

section Batches

variable {Key Row : Type} {schema : Schema Key Row}

theorem deleteBatches_eq (t : Table schema) (ids : List Int) {p : List Int → Row → Bool}
    (nil : ∀ r, p [] r = false) (append : ∀ xs ys r, p (xs ++ ys) r = (p xs r || p ys r)) :
    deleteBatches t ids p = t.delete (p ids) := by
  have batched : ∀ (batches : List (List Int)) (t : Table schema),
      batches.foldl (fun t batch => t.delete (p batch)) t = t.delete (p batches.flatten) := by
    intro batches
    induction batches with
    | nil =>
        intro t
        rw [List.foldl_nil, List.flatten_nil, funext nil, Table.delete_false]
    | cons batch batches ih =>
        intro t
        rw [List.foldl_cons, ih, Table.delete_delete, List.flatten_cons]
        exact congrArg t.delete (funext fun r => (append batch _ r).symm)
  rw [deleteBatches, batched, flatten_deleteUserBatches]

theorem deleteBatches_contains (t : Table schema) (ids : List Int) (column : Row → Int) :
    (deleteBatches t ids fun batch r => batch.contains (column r))
      = t.delete fun r => ids.contains (column r) :=
  deleteBatches_eq t ids (fun _ => rfl) fun _ _ _ => by simp

end Batches

/-! ### Statements -/

variable {readable : String → Bool} {db db' : Tables} {ids : List Int}

theorem deleteReactionsByMemoIDsTx_eq : deleteReactionsByMemoIDsTx db ids
    = { db with reactions := db.reactions.delete fun r => ids.contains r.memoID } := by
  rw [deleteReactionsByMemoIDsTx, deleteBatches_contains]

theorem deleteAttachmentsByIDsTx_eq : deleteAttachmentsByIDsTx db ids
    = { db with attachments := db.attachments.delete fun a => ids.contains a.id } := by
  rw [deleteAttachmentsByIDsTx, deleteBatches_contains]

theorem deleteSQLiteMemoSetShares_eq : deleteSQLiteMemoSetShares db ids
    = { db with shares := db.shares.delete fun share => ids.contains share.memoID } := by
  rw [deleteSQLiteMemoSetShares, deleteBatches_contains]

theorem deleteInboxesByIDsTx_eq : deleteInboxesByIDsTx db ids
    = { db with inbox := db.inbox.delete fun inbox => ids.contains inbox.id } := by
  rw [deleteInboxesByIDsTx, deleteBatches_contains]

theorem deleteMemoRelationsTx_eq : deleteMemoRelationsTx db ids
    = { db with relations := db.relations.delete fun r =>
        ids.contains r.memoID || ids.contains r.relatedMemoID } := by
  rw [deleteMemoRelationsTx, deleteBatches_eq]
  · exact fun r => rfl
  · intro xs ys r
    simp only [List.contains_eq_mem, List.mem_append, Bool.decide_or]
    ac_rfl

theorem deleteMemoSetRevisions_eq : deleteMemoSetRevisions db ids
    = { db with revisions := db.revisions.delete fun revision => ids.contains revision.memoID } := by
  unfold deleteMemoSetRevisions
  induction ids generalizing db with
  | nil =>
      have same : db.revisions.delete (fun revision => [].contains revision.memoID) = db.revisions :=
        Table.delete_false db.revisions
      rw [same]
      rfl
  | cons id ids ih =>
      rw [List.foldl_cons, ih]
      dsimp only
      rw [Table.delete_delete]
      refine congrArg (fun revisions => ({ db with revisions } : Tables))
        (congrArg db.revisions.delete (funext fun revision => ?_))
      rw [List.contains_cons]
      rfl

theorem deleteMemosTx_eq : deleteMemosTx db ids
    = { db with
        revisions := db.revisions.delete fun revision => ids.contains revision.memoID
        memos := db.memos.delete fun memo => ids.contains memo.id } := by
  rw [deleteMemosTx, deleteMemoSetRevisions_eq]
  dsimp only
  rw [deleteBatches_contains]

/-! ### Attachments -/

/-- What a query adds to a list of attachments. -/
structure Appended (done rows found : List AttachmentRow) : Prop where
  kept : ∀ a ∈ done, a ∈ found
  known : ∀ a ∈ found, a ∈ done ∨ a ∈ rows
  covered : ∀ a ∈ rows, ∃ b ∈ found, b.id = a.id

theorem Appended.trans {done rows rest between found : List AttachmentRow}
    (first : Appended done rows between) (second : Appended between rest found) :
    Appended done (rows ++ rest) found := by
  refine ⟨fun a ha => second.kept a (first.kept a ha), fun a ha => ?_, fun a ha => ?_⟩
  · rcases second.known a ha with h | h
    · exact (first.known a h).imp (fun h => h) (List.mem_append_left rest)
    · exact .inr (List.mem_append_right rows h)
  · rcases List.mem_append.mp ha with h | h
    · obtain ⟨b, hb, same⟩ := first.covered a h
      exact ⟨b, second.kept b hb, same⟩
    · exact second.covered a h

theorem appended_nil (done : List AttachmentRow) : Appended done [] done :=
  ⟨fun _ h => h, fun _ h => .inl h, fun _ h => absurd h List.not_mem_nil⟩

theorem appendDeleteUserAttachments_spec {done rows found : List AttachmentRow}
    (h : appendDeleteUserAttachments readable done rows = .ok found) : Appended done rows found := by
  unfold appendDeleteUserAttachments at h
  induction rows generalizing done with
  | nil =>
      rw [List.foldlM_nil, pure_eq_ok] at h
      rw [← h]
      exact appended_nil done
  | cons row rows ih =>
      rw [List.foldlM_cons, bind_eq_ok] at h
      obtain ⟨between, step, rest⟩ := h
      have first : Appended done [row] between := by
        split at step
        · rename_i seen
          rw [pure_eq_ok] at step
          rw [← step]
          refine ⟨fun _ h => h, fun _ h => .inl h, fun a ha => ?_⟩
          rw [List.mem_singleton.mp ha]
          simpa using seen
        · obtain ⟨-, -, step⟩ := bind_eq_ok.mp step
          rw [pure_eq_ok] at step
          rw [← step]
          refine ⟨fun _ h => List.mem_append_left _ h, fun _ h => List.mem_append.mp h,
            fun a ha => ?_⟩
          exact ⟨a, List.mem_append_right _ ha, rfl⟩
      exact first.trans (ih rest)

theorem appended_batches {rows : List Int → List AttachmentRow} {batches : List (List Int)}
    {done found : List AttachmentRow}
    (h : batches.foldlM (fun done batch => appendDeleteUserAttachments readable done (rows batch))
      done = .ok found) : Appended done (batches.flatMap rows) found := by
  induction batches generalizing done with
  | nil =>
      rw [List.foldlM_nil, pure_eq_ok] at h
      rw [← h]
      exact appended_nil done
  | cons batch batches ih =>
      rw [List.foldlM_cons, bind_eq_ok] at h
      obtain ⟨between, step, rest⟩ := h
      rw [List.flatMap_cons]
      exact (appendDeleteUserAttachments_spec step).trans (ih rest)

/-- The rows of the table a deletion has collected. -/
theorem Appended.mem_iff {rows found : List AttachmentRow} (h : Appended [] rows found)
    (stored : ∀ a ∈ rows, a ∈ db.attachments) {a : AttachmentRow} : a ∈ found ↔ a ∈ rows := by
  have known : ∀ b ∈ found, b ∈ rows := fun b hb =>
    (h.known b hb).resolve_left List.not_mem_nil
  refine ⟨known a, fun ha => ?_⟩
  obtain ⟨b, hb, same⟩ := h.covered a ha
  rwa [← Table.eq_of_key (stored b (known b hb)) (stored a ha) same]

def AttachmentRow.of (a : AttachmentRow) (memoIDs : List Int) : Prop :=
  ∃ id ∈ memoIDs, a.memoID = some id

theorem mem_flatMap_batches {query : List Int → List AttachmentRow} {a : AttachmentRow}
    (h : ∀ batch, a ∈ query batch ↔ a ∈ db.attachments ∧ a.memoID.any batch.contains = true) :
    a ∈ (deleteUserBatches ids deleteUserBatchSize).flatMap query
      ↔ a ∈ db.attachments ∧ a.of ids := by
  rw [List.mem_flatMap]
  constructor
  · rintro ⟨batch, hbatch, ha⟩
    obtain ⟨stored, bound⟩ := (h batch).mp ha
    obtain ⟨id, hid, mem⟩ := (Option.any_eq_true _ _).mp bound
    refine ⟨stored, id, ?_, hid⟩
    rw [← flatten_deleteUserBatches ids deleteUserBatchSize]
    exact List.mem_flatten_of_mem hbatch (List.contains_iff_mem.mp mem)
  · rintro ⟨stored, id, hid, bound⟩
    rw [← flatten_deleteUserBatches ids deleteUserBatchSize] at hid
    obtain ⟨batch, hbatch, mem⟩ := List.mem_flatten.mp hid
    refine ⟨batch, hbatch, (h batch).mpr ⟨stored, ?_⟩⟩
    rw [bound]
    exact List.contains_iff_mem.mpr mem

theorem listSQLiteMemoSetAttachments_spec {found : List AttachmentRow}
    (h : listSQLiteMemoSetAttachments readable db ids = .ok found) (a : AttachmentRow) :
    a ∈ found ↔ a ∈ db.attachments ∧ a.of ids := by
  have query : ∀ b, b ∈ (deleteUserBatches ids deleteUserBatchSize).flatMap (fun batch =>
      (db.attachments.select fun a => a.memoID.any batch.contains).insertionSort
        fun a b => a.id ≤ b.id) ↔ b ∈ db.attachments ∧ b.of ids := fun b =>
    mem_flatMap_batches fun batch => by rw [List.mem_insertionSort, Table.mem_select]
  rw [(appended_batches h).mem_iff fun b hb => ((query b).mp hb).1, query]

theorem listDeleteUserAttachments_spec {userID : Int} {found : List AttachmentRow}
    (h : listDeleteUserAttachments readable db userID ids = .ok found) (a : AttachmentRow) :
    a ∈ found ↔ a ∈ db.attachments ∧ (a.creatorID = userID ∨ a.of ids) := by
  obtain ⟨own, first, second⟩ := bind_eq_ok.mp h
  have query : ∀ b, b ∈ (db.attachments.select fun a => decide (a.creatorID = userID)) ++
      (deleteUserBatches ids deleteUserBatchSize).flatMap (fun batch =>
        db.attachments.select fun a => a.memoID.any batch.contains) ↔
      b ∈ db.attachments ∧ (b.creatorID = userID ∨ b.of ids) := by
    intro b
    rw [List.mem_append, mem_flatMap_batches fun batch => Table.mem_select, Table.mem_select,
      decide_eq_true_eq, and_or_left]
  have both := (appendDeleteUserAttachments_spec first).trans (appended_batches second)
  rw [both.mem_iff fun b hb => ((query b).mp hb).1, query]

/-! ### The queue -/

theorem enqueueAttachmentCleanup_eq (attachments : List AttachmentRow) :
    enqueueAttachmentCleanup db attachments = { db with
      attachmentCleanup := (enqueueAttachmentCleanup db attachments).attachmentCleanup } := by
  unfold enqueueAttachmentCleanup
  induction attachments generalizing db with
  | nil => rfl
  | cons a attachments ih =>
      rw [List.foldl_cons]
      exact ih

theorem enqueueAttachmentCleanup_spec (db : Tables) (attachments : List AttachmentRow) :
    (∀ entry ∈ db.attachmentCleanup,
      entry ∈ (enqueueAttachmentCleanup db attachments).attachmentCleanup) ∧
    ∀ a ∈ attachments, ∃ entry ∈ (enqueueAttachmentCleanup db attachments).attachmentCleanup,
      entry.attachmentID = a.id := by
  unfold enqueueAttachmentCleanup
  induction attachments generalizing db with
  | nil => exact ⟨fun _ h => h, fun _ h => absurd h List.not_mem_nil⟩
  | cons a attachments ih =>
      rw [List.foldl_cons]
      generalize hdb : { db with attachmentCleanup := _ } = next
      obtain ⟨kept, queued⟩ := ih next
      have kept' : ∀ entry ∈ db.attachmentCleanup, entry ∈ next.attachmentCleanup := by
        rw [← hdb]
        exact fun entry h => (Table.mem_insertOrIgnore rfl).mpr (.inl h)
      refine ⟨fun entry h => kept entry (kept' entry h), fun b hb => ?_⟩
      rcases List.mem_cons.mp hb with rfl | hb
      · by_cases there : ∃ entry ∈ db.attachmentCleanup, entry.attachmentID = b.id
        · obtain ⟨entry, hentry, same⟩ := there
          exact ⟨entry, kept entry (kept' entry hentry), same⟩
        · refine ⟨⟨b.id, b.cleanupSnapshot, 0⟩, kept _ ?_, rfl⟩
          rw [← hdb]
          refine (Table.mem_insertOrIgnore rfl).mpr (.inr ⟨rfl, fun entry h => ?_⟩)
          exact decide_eq_false fun same => there ⟨entry, h, same⟩
      · exact queued b hb

/-! ### What each deletion is about -/

/-- The ids of the memos, users and Spaces a deletion is about. -/
structure Scope where
  memo : Int → Prop
  user : Int → Prop
  space : Int → Prop

def Deletion.scope (db : Tables) : Deletion → Scope
  | .memoSet memoIDs =>
      { memo := fun id => id ∈ memoIDs, user := fun _ => False, space := fun _ => False }
  | .space delete =>
      { memo := fun id => ∃ memo ∈ db.memos, memo.spaceID = some delete.id ∧ memo.id = id
        user := fun _ => False
        space := fun id => id = delete.id }
  | .user userID =>
      { memo := fun id => (∃ u ∈ db.users, u.id = userID) ∧
          ∃ memo ∈ db.memos, memo.creatorID = userID ∧ memo.id = id
        user := fun id => (∃ u ∈ db.users, u.id = userID) ∧ id = userID
        space := fun _ => False }

/-- What a deletion makes of the tables. -/
structure Deletes (scope : Scope) (db db' : Tables) : Prop where
  memos : ∀ r, r ∈ db'.memos ↔ r ∈ db.memos ∧ ¬ scope.memo r.id
  shares : ∀ r, r ∈ db'.shares ↔ r ∈ db.shares ∧ ¬ (scope.memo r.memoID ∨ scope.user r.creatorID)
  revisions : ∀ r, r ∈ db'.revisions ↔ r ∈ db.revisions ∧ ¬ scope.memo r.memoID
  reactions : ∀ r, r ∈ db'.reactions ↔
    r ∈ db.reactions ∧ ¬ (scope.memo r.memoID ∨ scope.user r.creatorID)
  attachments : ∀ r, r ∈ db'.attachments ↔
    r ∈ db.attachments ∧ ¬ ((∃ id, r.memoID = some id ∧ scope.memo id) ∨ scope.user r.creatorID)
  relations : ∀ r, r ∈ db'.relations ↔
    r ∈ db.relations ∧ ¬ (scope.memo r.memoID ∨ scope.memo r.relatedMemoID)
  users : ∀ r, r ∈ db'.users ↔ r ∈ db.users ∧ ¬ scope.user r.id
  spaces : ∀ r, r ∈ db'.spaces ↔ r ∈ db.spaces ∧ ¬ scope.space r.id
  members : ∀ r, r ∈ db'.members ↔
    r ∈ db.members ∧ ¬ (scope.user r.userID ∨ scope.space r.spaceID)
  inbox : ∀ r, r ∈ db'.inbox ↔
    r ∈ db.inbox ∧ ¬ (scope.user r.senderID ∨ scope.user r.receiverID)
  identities : ∀ r, r ∈ db'.identities ↔ r ∈ db.identities ∧ ¬ scope.user r.userID
  settings : ∀ r, r ∈ db'.settings ↔ r ∈ db.settings ∧ ¬ scope.user r.userID
  pollVotes : db'.pollVotes = db.pollVotes
  bookmarks : db'.bookmarks = db.bookmarks
  reports : db'.reports = db.reports
  quarantine : db'.quarantine = db.quarantine
  reportAdjustments : db'.reportAdjustments = db.reportAdjustments
  waiting : ∀ entry ∈ db.attachmentCleanup, entry ∈ db'.attachmentCleanup
  queued : ∀ a ∈ db.attachments, a ∉ db'.attachments →
    ∃ entry ∈ db'.attachmentCleanup, entry.attachmentID = a.id

theorem queued_of_listed {attachments : List AttachmentRow} {p : AttachmentRow → Prop}
    (listed : ∀ a, a ∈ attachments ↔ a ∈ db.attachments ∧ p a)
    {t : Table AttachmentRow.schema} (ht : ∀ a, a ∈ t ↔ a ∈ db.attachments ∧ ¬ p a)
    (a : AttachmentRow) (stored : a ∈ db.attachments) (gone : a ∉ t) :
    ∃ entry ∈ (enqueueAttachmentCleanup db attachments).attachmentCleanup,
      entry.attachmentID = a.id := by
  have deleted : p a := by
    by_contra h
    exact gone ((ht a).mpr ⟨stored, h⟩)
  exact (enqueueAttachmentCleanup_spec db attachments).2 a ((listed a).mpr ⟨stored, deleted⟩)

theorem deleteSQLiteMemoSetTx_eq {attachments : List AttachmentRow}
    (h : deleteSQLiteMemoSetTx readable db ids = .ok (db', attachments)) :
    (∀ a, a ∈ attachments ↔ a ∈ db.attachments ∧ a.of ids) ∧
    db' = { db with
      attachmentCleanup := (enqueueAttachmentCleanup db attachments).attachmentCleanup
      shares := db.shares.delete fun share => ids.contains share.memoID
      revisions := db.revisions.delete fun revision => ids.contains revision.memoID
      memos := db.memos.delete fun memo => ids.contains memo.id
      reactions := db.reactions.delete fun r => ids.contains r.memoID
      attachments := db.attachments.delete fun a =>
        (attachments.map AttachmentRow.id).contains a.id
      relations := db.relations.delete fun r =>
        ids.contains r.memoID || ids.contains r.relatedMemoID } := by
  obtain ⟨found, list, rest⟩ := bind_eq_ok.mp h
  rw [pure_eq_ok] at rest
  injection rest with tables same
  rw [same] at list tables
  refine ⟨listSQLiteMemoSetAttachments_spec list, tables.symm.trans ?_⟩
  -- from the first statement on, so that each works on tables that are written out
  rw [enqueueAttachmentCleanup_eq]
  generalize (enqueueAttachmentCleanup db attachments).attachmentCleanup = queue
  rw [deleteSQLiteMemoSetShares_eq]
  dsimp only
  rw [deleteMemosTx_eq]
  dsimp only
  rw [deleteReactionsByMemoIDsTx_eq]
  dsimp only
  rw [deleteAttachmentsByIDsTx_eq]
  dsimp only
  rw [deleteMemoRelationsTx_eq]

theorem of_iff (a : AttachmentRow) :
    a.of ids ↔ (∃ id, a.memoID = some id ∧ id ∈ ids) ∨ False := by
  rw [or_false]
  exact exists_congr fun id => And.comm

theorem deleteSQLiteMemoSetTx_deletes {attachments : List AttachmentRow}
    (h : deleteSQLiteMemoSetTx readable db ids = .ok (db', attachments)) :
    Deletes ((Deletion.memoSet ids).scope db) db db' := by
  obtain ⟨listed, rfl⟩ := deleteSQLiteMemoSetTx_eq h
  have bound : ∀ a, (a ∈ db.attachments.delete fun a =>
      (attachments.map AttachmentRow.id).contains a.id) ↔ a ∈ db.attachments ∧ ¬ a.of ids :=
    fun a => Table.mem_delete_keys listed
  constructor
  case attachments =>
    exact fun a => (bound a).trans (and_congr_right fun _ => not_congr (of_iff a))
  case waiting => exact (enqueueAttachmentCleanup_spec db attachments).1
  case queued => exact queued_of_listed listed bound
  all_goals first | rfl | (intro r; simp [Deletion.scope, not_or])

theorem mem_memoIDsWhere {p : MemoRow → Bool} {id : Int} :
    id ∈ memoIDsWhere db p ↔ ∃ memo ∈ db.memos, p memo = true ∧ memo.id = id := by
  rw [memoIDsWhere, List.mem_insertionSort, List.mem_map]
  exact exists_congr fun memo => by rw [Table.mem_select, and_assoc]

theorem deleteSpace_deletes {delete : DeleteSpace} {attachments : List AttachmentRow}
    (h : db.deleteSpace readable delete = .ok (db', attachments)) :
    Deletes ((Deletion.space delete).scope db) db db' := by
  obtain ⟨-, -, h⟩ := bind_eq_ok.mp h
  obtain ⟨⟨between, found⟩, set, h⟩ := bind_eq_ok.mp h
  obtain ⟨-, -, h⟩ := bind_eq_ok.mp h
  rw [pure_eq_ok] at h
  injection h with h
  have memos : Deletes _ db between := deleteSQLiteMemoSetTx_deletes set
  have assigned : ∀ id, id ∈ memoIDsWhere db (fun memo => decide (memo.spaceID = some delete.id)) ↔
      ∃ memo ∈ db.memos, memo.spaceID = some delete.id ∧ memo.id = id := by
    intro id
    rw [mem_memoIDsWhere]
    simp
  simp only [Deletion.scope, assigned] at memos
  rw [← h]
  exact { memos with
    spaces := fun r => by
      rw [Table.mem_delete, memos.spaces, decide_eq_false_iff_not, not_false_eq_true, and_true]
      rfl
    members := fun r => by
      rw [Table.mem_delete, memos.members, decide_eq_false_iff_not, or_self, not_false_eq_true,
        and_true]
      exact and_congr_right fun _ => not_congr (false_or _).symm.to_iff }

theorem deleteUserTargetsTx_eq (userID : Int) (targets : DeleteUserTargetSet) :
    deleteUserTargetsTx db userID targets = { db with
      attachmentCleanup := (enqueueAttachmentCleanup db targets.attachments).attachmentCleanup
      revisions := db.revisions.delete fun revision => targets.memoIDs.contains revision.memoID
      memos := db.memos.delete fun memo => targets.memoIDs.contains memo.id
      reactions := db.reactions.delete fun r =>
        targets.memoIDs.contains r.memoID || decide (r.creatorID = userID)
      attachments := db.attachments.delete fun a => targets.attachmentIDs.contains a.id
      shares := db.shares.delete fun share =>
        decide (share.creatorID = userID) || targets.memoIDs.contains share.memoID
      inbox := db.inbox.delete fun inbox => targets.inboxIDs.contains inbox.id
      identities := db.identities.delete fun identity => decide (identity.userID = userID)
      settings := db.settings.delete fun setting => decide (setting.userID = userID)
      relations := db.relations.delete fun r =>
        targets.memoIDs.contains r.memoID || targets.memoIDs.contains r.relatedMemoID
      users := db.users.delete fun u => decide (u.id = userID) } := by
  unfold deleteUserTargetsTx
  dsimp only
  rw [enqueueAttachmentCleanup_eq]
  generalize (enqueueAttachmentCleanup db targets.attachments).attachmentCleanup = queue
  rw [deleteMemosTx_eq]
  dsimp only
  rw [deleteReactionsByMemoIDsTx_eq]
  dsimp only
  rw [deleteAttachmentsByIDsTx_eq, deleteReactionsByCreatorTx]
  dsimp only
  rw [Table.delete_delete, deleteMemoSharesTx]
  dsimp only
  rw [deleteSQLiteMemoSetShares_eq]
  dsimp only
  rw [Table.delete_delete, deleteInboxesByIDsTx_eq, deleteUserIdentitiesTx]
  dsimp only
  rw [deleteUserSettingsTx]
  dsimp only
  rw [deleteMemoRelationsTx_eq, deleteUserRowTx]

/-- The targets of a user are what the deletion is about. -/
theorem collectDeleteUserTargets_spec {userID : Int} {targets : DeleteUserTargetSet}
    (h : collectDeleteUserTargets readable db userID = .ok targets) :
    (∀ id, id ∈ targets.memoIDs ↔ ∃ memo ∈ db.memos, memo.creatorID = userID ∧ memo.id = id) ∧
    (∀ a, a ∈ targets.attachments ↔
      a ∈ db.attachments ∧ (a.creatorID = userID ∨ a.of targets.memoIDs)) ∧
    targets.attachmentIDs = targets.attachments.map AttachmentRow.id ∧
    targets.inboxIDs = (db.inbox.select fun inbox =>
      decide (inbox.senderID = userID) || decide (inbox.receiverID = userID)).map InboxRow.id := by
  obtain ⟨attachments, list, rest⟩ := bind_eq_ok.mp h
  rw [pure_eq_ok] at rest
  rw [← rest]
  refine ⟨fun id => ?_, listDeleteUserAttachments_spec list, rfl, rfl⟩
  rw [mem_memoIDsWhere]
  simp

/-- All that is left of the rows of a user who is a member nowhere are invitations. -/
theorem mem_delete_invitations {userID : Int}
    (no_member : db.members.count (fun sm =>
      decide (sm.userID = userID) && decide (sm.status ≠ .Invited)) = 0) (sm : SpaceMemberRow) :
    (sm ∈ db.members.delete fun sm => decide (sm.userID = userID) && decide (sm.status = .Invited))
      ↔ sm ∈ db.members ∧ ¬ sm.userID = userID := by
  have invited := List.countP_eq_zero.mp no_member
  rw [Table.mem_delete]
  refine and_congr_right fun stored => ?_
  have invited : sm.userID = userID → sm.status = .Invited := by
    simpa using invited sm stored
  by_cases same : sm.userID = userID
  · simp [same, invited same]
  · simp [same]

theorem deleteUserTargetsTx_deletes {userID : Int} {targets : DeleteUserTargetSet}
    {members : Table SpaceMemberRow.schema}
    (left : ∀ sm, sm ∈ members ↔ sm ∈ db.members ∧ ¬ sm.userID = userID)
    (h : collectDeleteUserTargets readable { db with members } userID = .ok targets) :
    Deletes { memo := fun id => id ∈ targets.memoIDs
              user := fun id => id = userID
              space := fun _ => False }
      db (deleteUserTargetsTx { db with members } userID targets) := by
  obtain ⟨-, listed, attachmentIDs, inboxIDs⟩ := collectDeleteUserTargets_spec h
  rw [deleteUserTargetsTx_eq, attachmentIDs, inboxIDs]
  have bound : ∀ a, (a ∈ db.attachments.delete fun a =>
      (targets.attachments.map AttachmentRow.id).contains a.id) ↔
        a ∈ db.attachments ∧ ¬ (a.creatorID = userID ∨ a.of targets.memoIDs) :=
    fun a => Table.mem_delete_keys listed
  constructor
  case attachments =>
    refine fun a => (bound a).trans (and_congr_right fun _ => not_congr ?_)
    rw [of_iff, or_false, or_comm]
  case inbox =>
    refine fun r => (Table.mem_delete_keys fun r => Table.mem_select).trans ?_
    simp
  case shares =>
    intro r
    simp [and_comm]
  case members => exact fun sm => (left sm).trans (by rw [or_false])
  case waiting => exact (enqueueAttachmentCleanup_spec { db with members } targets.attachments).1
  case queued => exact queued_of_listed listed bound
  all_goals first | rfl | (intro r; simp)

theorem deleteUser_deletes {userID : Int} {result : DeleteUserResult}
    (h : db.deleteUser readable userID = .ok (db', result)) :
    Deletes ((Deletion.user userID).scope db) db db' := by
  unfold Tables.deleteUser at h
  split at h
  · rename_i missing
    rw [Option.isNone_iff_eq_none, Table.find?_eq_none] at missing
    have nobody : ¬ ∃ u ∈ db.users, u.id = userID := fun ⟨u, hu, same⟩ => missing u hu same
    rw [pure_eq_ok] at h
    injection h with h
    rw [← h]
    constructor
    case queued => exact fun a stored gone => absurd stored gone
    all_goals simp [Deletion.scope, nobody]
  · rename_i found
    have known : ∃ u ∈ db.users, u.id = userID := by
      cases row : db.users.find? userID with
      | none => exact absurd (by rw [row]; rfl) found
      | some u => exact ⟨u, Table.find?_eq_some.mp row⟩
    obtain ⟨_, no_member, h⟩ := bind_eq_ok.mp h
    obtain ⟨targets, collect, h⟩ := bind_eq_ok.mp h
    rw [pure_eq_ok] at h
    injection h with h
    rw [require_eq_ok, decide_eq_true_eq] at no_member
    have memos := (collectDeleteUserTargets_spec collect).1
    have about : (Deletion.user userID).scope db = {
        memo := fun id => id ∈ targets.memoIDs
        user := fun id => id = userID
        space := fun _ => False } := by
      simp only [Deletion.scope, known, true_and, memos]
    rw [about, ← h]
    exact deleteUserTargetsTx_deletes (mem_delete_invitations no_member) collect

/-- Each deletion is given by what it is about. -/
theorem Deletion.deletes {deletion : Deletion} (h : deletion.commit readable db = .ok db') :
    Deletes (deletion.scope db) db db' := by
  cases deletion with
  | memoSet memoIDs =>
      obtain ⟨⟨_, attachments⟩, committed, rfl⟩ := map_eq_ok.mp h
      exact deleteSQLiteMemoSetTx_deletes committed
  | space delete =>
      obtain ⟨⟨_, attachments⟩, committed, rfl⟩ := map_eq_ok.mp h
      exact deleteSpace_deletes committed
  | user userID =>
      obtain ⟨⟨_, result⟩, committed, rfl⟩ := map_eq_ok.mp h
      exact deleteUser_deletes committed

/-! ### The state without the other tables -/

theorem deleteSQLiteMemoSetTx_toState {attachments : List AttachmentRow}
    (h : deleteSQLiteMemoSetTx readable db ids = .ok (db', attachments)) :
    db'.toState = deleteMemoSet db.toState ids := by
  rw [(deleteSQLiteMemoSetTx_eq h).2]
  rfl

theorem contains_memoIDsWhere (p : MemoRow → Bool) (id : Int) :
    (memoIDsWhere db p).contains id = ((db.memos.select p).map MemoRow.id).contains id := by
  rw [Bool.eq_iff_iff, List.contains_iff_mem, List.contains_iff_mem, memoIDsWhere,
    List.mem_insertionSort]

theorem deleteMemoSet_memoIDsWhere (state : State) (p : MemoRow → Bool) :
    deleteMemoSet state (memoIDsWhere db p)
      = deleteMemoSet state ((db.memos.select p).map MemoRow.id) := by
  simp only [deleteMemoSet, contains_memoIDsWhere]

theorem deleteSpace_toState {delete : DeleteSpace} {attachments : List AttachmentRow}
    (h : db.deleteSpace readable delete = .ok (db', attachments)) :
    Store.deleteSpace db.toState delete = .ok db'.toState := by
  obtain ⟨_, allowed, h⟩ := bind_eq_ok.mp h
  obtain ⟨⟨between, found⟩, set, h⟩ := bind_eq_ok.mp h
  obtain ⟨_, one, h⟩ := bind_eq_ok.mp h
  rw [pure_eq_ok] at h
  injection h with h
  have memos := deleteSQLiteMemoSetTx_toState set
  rw [deleteMemoSet_memoIDsWhere] at memos
  refine bind_eq_ok.mpr ⟨(), allowed, bind_eq_ok.mpr ⟨(), ?_, ?_⟩⟩
  · rw [← memos]
    exact one
  · rw [← h]
    dsimp only
    rw [← memos]
    rfl

theorem deleteUser_toState {userID : Int} {result : DeleteUserResult}
    (h : db.deleteUser readable userID = .ok (db', result)) :
    Store.deleteUser db.toState userID = .ok db'.toState := by
  unfold Tables.deleteUser at h
  unfold Store.deleteUser
  split at h
  · rename_i missing
    rw [pure_eq_ok] at h
    injection h with h
    rw [if_pos missing, h]
    rfl
  · rename_i found
    obtain ⟨_, no_member, h⟩ := bind_eq_ok.mp h
    obtain ⟨targets, collect, h⟩ := bind_eq_ok.mp h
    rw [pure_eq_ok] at h
    injection h with h
    rw [if_neg found]
    refine bind_eq_ok.mpr ⟨(), no_member, ?_⟩
    obtain ⟨attachments, -, rest⟩ := bind_eq_ok.mp collect
    rw [pure_eq_ok] at rest
    rw [pure_eq_ok, ← h, deleteUserTargetsTx_eq, ← rest]
    unfold deleteMemoSet
    simp only [contains_memoIDsWhere, Table.delete_delete, Bool.or_comm]

/-- **The deletions refine those of the smaller state**, whatever is in the other tables. -/
theorem deletion_refines {deletion : Deletion} (h : deletion.commit readable db = .ok db') :
    match deletion with
    | .memoSet ids => db'.toState = deleteMemoSet db.toState ids
    | .space delete => Store.deleteSpace db.toState delete = .ok db'.toState
    | .user userID => Store.deleteUser db.toState userID = .ok db'.toState := by
  cases deletion with
  | memoSet ids =>
      obtain ⟨⟨_, attachments⟩, committed, rfl⟩ := map_eq_ok.mp h
      exact deleteSQLiteMemoSetTx_toState committed
  | space delete =>
      obtain ⟨⟨_, attachments⟩, committed, rfl⟩ := map_eq_ok.mp h
      exact deleteSpace_toState committed
  | user userID =>
      obtain ⟨⟨_, result⟩, committed, rfl⟩ := map_eq_ok.mp h
      exact deleteUser_toState committed

/-! ### Clean deletions -/

/-- Some row of the tables every deletion goes through refers to the memo. -/
def Tables.dependsOn (db : Tables) (memoID : Int) : Bool :=
  db.shares.any (fun r => decide (r.memoID = memoID))
    || db.revisions.any (fun r => decide (r.memoID = memoID))
    || db.reactions.any (fun r => decide (r.memoID = memoID))
    || db.attachments.any (fun r => decide (r.memoID = some memoID))
    || db.relations.any fun r => decide (r.memoID = memoID) || decide (r.relatedMemoID = memoID)

/-- Some vote, bookmark or record of the moderation refers to the memo. -/
def Tables.records (db : Tables) (memoID : Int) : Bool :=
  db.pollVotes.any (fun r => decide (r.memoID = memoID))
    || db.bookmarks.any (fun r => decide (r.memoID = memoID))
    || db.reports.any (fun r => decide (r.target.memoID = some memoID))
    || db.quarantine.any (fun r => decide (r.target.memoID = some memoID))
    || db.reportAdjustments.any fun r => decide (r.target.memoID = some memoID)

/-- Some row that goes with a user refers to the user. -/
def Tables.belongsTo (db : Tables) (userID : Int) : Bool :=
  db.memos.any (fun r => decide (r.creatorID = userID))
    || db.shares.any (fun r => decide (r.creatorID = userID))
    || db.reactions.any (fun r => decide (r.creatorID = userID))
    || db.attachments.any (fun r => decide (r.creatorID = userID))
    || db.members.any (fun r => decide (r.userID = userID))
    || db.inbox.any (fun r => decide (r.senderID = userID) || decide (r.receiverID = userID))
    || db.identities.any (fun r => decide (r.userID = userID))
    || db.settings.any fun r => decide (r.userID = userID)

/-- A table has lost rows, and none of those that stay. -/
def Kept {Key Row : Type} {schema : Schema Key Row} (t t' : Table schema) (stays : Row → Prop) :
    Prop :=
  (∀ r ∈ t', r ∈ t) ∧ ∀ r ∈ t, stays r → r ∈ t'

def Tables.HasMemo (db : Tables) (id : Int) : Prop := ∃ memo ∈ db.memos, memo.id = id

def Tables.HasUser (db : Tables) (id : Int) : Prop := ∃ u ∈ db.users, u.id = id

/-- The rows of the memos and users that are still there are as they were. -/
structure Undisturbed (db db' : Tables) : Prop where
  memos : Kept db.memos db'.memos fun r => db'.HasMemo r.id
  users : Kept db.users db'.users fun r => db'.HasUser r.id
  shares : Kept db.shares db'.shares fun r => db'.HasMemo r.memoID ∧ db'.HasUser r.creatorID
  revisions : Kept db.revisions db'.revisions fun r => db'.HasMemo r.memoID
  reactions : Kept db.reactions db'.reactions fun r =>
    db'.HasMemo r.memoID ∧ db'.HasUser r.creatorID
  attachments : Kept db.attachments db'.attachments fun r =>
    (∀ id, r.memoID = some id → db'.HasMemo id) ∧ db'.HasUser r.creatorID
  relations : Kept db.relations db'.relations fun r =>
    db'.HasMemo r.memoID ∧ db'.HasMemo r.relatedMemoID
  members : Kept db.members db'.members fun r =>
    db'.HasUser r.userID ∧ ∃ space ∈ db'.spaces, space.id = r.spaceID
  inbox : Kept db.inbox db'.inbox fun r => db'.HasUser r.senderID ∧ db'.HasUser r.receiverID
  identities : Kept db.identities db'.identities fun r => db'.HasUser r.userID
  settings : Kept db.settings db'.settings fun r => db'.HasUser r.userID
  pollVotes : Kept db.pollVotes db'.pollVotes fun r => db'.HasMemo r.memoID
  bookmarks : Kept db.bookmarks db'.bookmarks fun r => db'.HasMemo r.memoID
  reports : Kept db.reports db'.reports fun r => ∃ id, r.target.memoID = some id ∧ db'.HasMemo id
  quarantine : Kept db.quarantine db'.quarantine fun r =>
    ∃ id, r.target.memoID = some id ∧ db'.HasMemo id
  reportAdjustments : Kept db.reportAdjustments db'.reportAdjustments fun r =>
    ∃ id, r.target.memoID = some id ∧ db'.HasMemo id

structure CleanDeletion (db db' : Tables) : Prop where
  /-- No row refers to a memo that is gone. -/
  memos : ∀ id, db.HasMemo id → ¬ db'.HasMemo id → (db'.dependsOn id || db'.records id) = false
  /-- No row that goes with a user refers to a user who is gone. -/
  users : ∀ id, db.HasUser id → ¬ db'.HasUser id → db'.belongsTo id = false
  /-- An attachment that is gone has one entry in the queue. -/
  queued : ∀ a ∈ db.attachments, a ∉ db'.attachments →
    ∃! entry, entry ∈ db'.attachmentCleanup ∧ entry.attachmentID = a.id
  undisturbed : Undisturbed db db'

def Deletion.deletesMemo (db : Tables) (memo : MemoRow) : Deletion → Bool
  | .memoSet memoIDs => memoIDs.contains memo.id
  | .space delete => decide (memo.spaceID = some delete.id)
  | .user userID => (db.users.find? userID).isSome && decide (memo.creatorID = userID)

section Deletes

variable {scope : Scope}

theorem Deletes.hasMemo (h : Deletes scope db db') {id : Int} :
    db'.HasMemo id ↔ db.HasMemo id ∧ ¬ scope.memo id := by
  constructor
  · rintro ⟨memo, hmemo, rfl⟩
    obtain ⟨stored, stays⟩ := (h.memos memo).mp hmemo
    exact ⟨⟨memo, stored, rfl⟩, stays⟩
  · rintro ⟨⟨memo, stored, rfl⟩, stays⟩
    exact ⟨memo, (h.memos memo).mpr ⟨stored, stays⟩, rfl⟩

theorem Deletes.hasUser (h : Deletes scope db db') {id : Int} :
    db'.HasUser id ↔ db.HasUser id ∧ ¬ scope.user id := by
  constructor
  · rintro ⟨u, hu, rfl⟩
    obtain ⟨stored, stays⟩ := (h.users u).mp hu
    exact ⟨⟨u, stored, rfl⟩, stays⟩
  · rintro ⟨⟨u, stored, rfl⟩, stays⟩
    exact ⟨u, (h.users u).mpr ⟨stored, stays⟩, rfl⟩

/-- What still refers to something was not among the rows that went. -/
theorem any_eq_false_of_deleted {Key Row : Type} {schema : Schema Key Row} {t t' : Table schema}
    {gone : Row → Prop} (h : ∀ r, r ∈ t' ↔ r ∈ t ∧ ¬ gone r) {refers : Row → Bool}
    (goes : ∀ r, r ∈ t → refers r = true → gone r) : t'.any refers = false := by
  rw [Table.any_eq_false]
  intro r hr
  obtain ⟨stored, stays⟩ := (h r).mp hr
  by_contra refer
  rw [Bool.not_eq_false] at refer
  exact stays (goes r stored refer)

theorem Deletes.not_dependsOn (h : Deletes scope db db') {id : Int} (gone : scope.memo id) :
    db'.dependsOn id = false := by
  unfold Tables.dependsOn
  simp only [Bool.or_eq_false_iff]
  refine ⟨⟨⟨⟨any_eq_false_of_deleted h.shares ?_, any_eq_false_of_deleted h.revisions ?_⟩,
    any_eq_false_of_deleted h.reactions ?_⟩, any_eq_false_of_deleted h.attachments ?_⟩,
    any_eq_false_of_deleted h.relations ?_⟩
  · intro r _ refer
    exact .inl (of_decide_eq_true refer ▸ gone)
  · intro r _ refer
    exact of_decide_eq_true refer ▸ gone
  · intro r _ refer
    exact .inl (of_decide_eq_true refer ▸ gone)
  · intro r _ refer
    exact .inl ⟨id, of_decide_eq_true refer, gone⟩
  · intro r _ refer
    rw [Bool.or_eq_true, decide_eq_true_eq, decide_eq_true_eq] at refer
    rcases refer with same | same
    · exact .inl (same ▸ gone)
    · exact .inr (same ▸ gone)

theorem Deletes.not_belongsTo (h : Deletes scope db db')
    (owns : ∀ memo ∈ db.memos, scope.user memo.creatorID → scope.memo memo.id) {id : Int}
    (gone : scope.user id) : db'.belongsTo id = false := by
  unfold Tables.belongsTo
  simp only [Bool.or_eq_false_iff]
  refine ⟨⟨⟨⟨⟨⟨⟨any_eq_false_of_deleted h.memos ?_, any_eq_false_of_deleted h.shares ?_⟩,
    any_eq_false_of_deleted h.reactions ?_⟩, any_eq_false_of_deleted h.attachments ?_⟩,
    any_eq_false_of_deleted h.members ?_⟩, any_eq_false_of_deleted h.inbox ?_⟩,
    any_eq_false_of_deleted h.identities ?_⟩, any_eq_false_of_deleted h.settings ?_⟩
  · intro r stored refer
    exact owns r stored (of_decide_eq_true refer ▸ gone)
  · intro r _ refer
    exact .inr (of_decide_eq_true refer ▸ gone)
  · intro r _ refer
    exact .inr (of_decide_eq_true refer ▸ gone)
  · intro r _ refer
    exact .inr (of_decide_eq_true refer ▸ gone)
  · intro r _ refer
    exact .inl (of_decide_eq_true refer ▸ gone)
  · intro r _ refer
    rw [Bool.or_eq_true, decide_eq_true_eq, decide_eq_true_eq] at refer
    rcases refer with same | same
    · exact .inl (same ▸ gone)
    · exact .inr (same ▸ gone)
  · intro r _ refer
    exact of_decide_eq_true refer ▸ gone
  · intro r _ refer
    exact of_decide_eq_true refer ▸ gone

theorem Deletes.records_eq (h : Deletes scope db db') (id : Int) : db'.records id = db.records id := by
  unfold Tables.records
  rw [h.pollVotes, h.bookmarks, h.reports, h.quarantine, h.reportAdjustments]

theorem kept_of_deleted {Key Row : Type} {schema : Schema Key Row} {t t' : Table schema}
    {gone stays : Row → Prop} (h : ∀ r, r ∈ t' ↔ r ∈ t ∧ ¬ gone r)
    (apart : ∀ r, stays r → ¬ gone r) : Kept t t' stays :=
  ⟨fun r hr => ((h r).mp hr).1, fun r hr there => (h r).mpr ⟨hr, apart r there⟩⟩

theorem kept_of_eq {Key Row : Type} {schema : Schema Key Row} {t t' : Table schema}
    (h : t' = t) (stays : Row → Prop) : Kept t t' stays := by
  rw [h]
  exact ⟨fun _ hr => hr, fun _ hr _ => hr⟩

theorem Deletes.undisturbed (h : Deletes scope db db') : Undisturbed db db' := by
  have memo : ∀ {id}, db'.HasMemo id → ¬ scope.memo id := fun there => (h.hasMemo.mp there).2
  have user : ∀ {id}, db'.HasUser id → ¬ scope.user id := fun there => (h.hasUser.mp there).2
  have space : ∀ {id}, (∃ space ∈ db'.spaces, space.id = id) → ¬ scope.space id := by
    rintro _ ⟨space, there, rfl⟩
    exact ((h.spaces space).mp there).2
  constructor
  · exact kept_of_deleted h.memos fun r => memo
  · exact kept_of_deleted h.users fun r => user
  · exact kept_of_deleted h.shares fun r there => not_or.mpr ⟨memo there.1, user there.2⟩
  · exact kept_of_deleted h.revisions fun r => memo
  · exact kept_of_deleted h.reactions fun r there => not_or.mpr ⟨memo there.1, user there.2⟩
  · refine kept_of_deleted h.attachments fun r there => not_or.mpr ⟨?_, user there.2⟩
    rintro ⟨id, bound, gone⟩
    exact memo (there.1 id bound) gone
  · exact kept_of_deleted h.relations fun r there => not_or.mpr ⟨memo there.1, memo there.2⟩
  · exact kept_of_deleted h.members fun r there => not_or.mpr ⟨user there.1, space there.2⟩
  · exact kept_of_deleted h.inbox fun r there => not_or.mpr ⟨user there.1, user there.2⟩
  · exact kept_of_deleted h.identities fun r => user
  · exact kept_of_deleted h.settings fun r => user
  · exact kept_of_eq h.pollVotes _
  · exact kept_of_eq h.bookmarks _
  · exact kept_of_eq h.reports _
  · exact kept_of_eq h.quarantine _
  · exact kept_of_eq h.reportAdjustments _

theorem Deletes.queued_once (h : Deletes scope db db') (a : AttachmentRow)
    (stored : a ∈ db.attachments) (gone : a ∉ db'.attachments) :
    ∃! entry, entry ∈ db'.attachmentCleanup ∧ entry.attachmentID = a.id := by
  obtain ⟨entry, queued, about⟩ := h.queued a stored gone
  refine ⟨entry, ⟨queued, about⟩, fun other there => ?_⟩
  exact Table.eq_of_key there.1 queued (there.2.trans about.symm)

end Deletes

theorem Deletion.scope_owns (deletion : Deletion) (memo : MemoRow) (stored : memo ∈ db.memos)
    (gone : (deletion.scope db).user memo.creatorID) : (deletion.scope db).memo memo.id := by
  cases deletion with
  | memoSet memoIDs => exact gone.elim
  | space delete => exact gone.elim
  | user userID => exact ⟨gone.1, memo, stored, gone.2, rfl⟩

theorem Deletion.scope_memo_iff (deletion : Deletion) {memo : MemoRow} (stored : memo ∈ db.memos) :
    (deletion.scope db).memo memo.id ↔ deletion.deletesMemo db memo = true := by
  have row : ∀ {p : MemoRow → Prop}, (∃ m ∈ db.memos, p m ∧ m.id = memo.id) ↔ p memo := by
    intro p
    constructor
    · rintro ⟨m, hm, hp, same⟩
      rwa [← Table.eq_of_key hm stored same]
    · exact fun hp => ⟨memo, stored, hp, rfl⟩
  cases deletion with
  | memoSet memoIDs => exact List.contains_iff_mem.symm
  | space delete => exact row.trans decide_eq_true_iff.symm
  | user userID =>
      have known : (∃ u ∈ db.users, u.id = userID) ↔ (db.users.find? userID).isSome = true := by
        rw [Option.isSome_iff_exists]
        exact exists_congr fun u => Table.find?_eq_some.symm
      show _ ∧ _ ↔ (_ && _) = true
      rw [row, known, Bool.and_eq_true, decide_eq_true_eq]

/-- A deletion is clean exactly when no vote, bookmark or record of the moderation is about
a memo it deletes. -/
theorem clean_deletion_iff (readable : String → Bool) (deletion : Deletion) (db db' : Tables)
    (committed : deletion.commit readable db = .ok db') :
    CleanDeletion db db' ↔
      ∀ memo ∈ db.memos, deletion.deletesMemo db memo = true → db.records memo.id = false := by
  have deletes := Deletion.deletes committed
  constructor
  · intro clean memo stored about
    have gone : ¬ db'.HasMemo memo.id := fun there =>
      (deletes.hasMemo.mp there).2 ((deletion.scope_memo_iff stored).mpr about)
    have unreferenced := clean.memos memo.id ⟨memo, stored, rfl⟩ gone
    rw [Bool.or_eq_false_iff, deletes.records_eq] at unreferenced
    exact unreferenced.2
  · intro unrecorded
    refine ⟨fun id there gone => ?_, fun id there gone => ?_, deletes.queued_once,
      deletes.undisturbed⟩
    · have about : (deletion.scope db).memo id := by
        by_contra stays
        exact gone (deletes.hasMemo.mpr ⟨there, stays⟩)
      obtain ⟨memo, stored, rfl⟩ := there
      rw [deletes.not_dependsOn about, Bool.false_or, deletes.records_eq]
      exact unrecorded memo stored ((deletion.scope_memo_iff stored).mp about)
    · have about : (deletion.scope db).user id := by
        by_contra stays
        exact gone (deletes.hasUser.mpr ⟨there, stays⟩)
      exact deletes.not_belongsTo deletion.scope_owns about

/-! ### A memo with votes -/

def pollMemo : MemoRow := .withDefaults 7 "lunch" 4 .Public none

def pollTables : Tables where
  users := ⟨[.withDefaults 4 "ivo", .withDefaults 5 "lea"], by decide, by decide⟩
  spaces := Keyed.Table.empty
  members := Keyed.Table.empty
  memos := ⟨[pollMemo], by decide, by decide⟩
  shares := Keyed.Table.empty
  revisions := Keyed.Table.empty
  spaceSequence := 0
  revisionSequence := 0
  allowsAnonymousAccess := true
  relations := Keyed.Table.empty
  attachments := ⟨[.withDefaults 3 "menu" 4 (some 7) .S3], by decide, by decide⟩
  attachmentCleanup := Keyed.Table.empty
  reactions := ⟨[⟨1, 0, 5, 7, "like"⟩], by decide, by decide⟩
  pollVotes := Keyed.Table.empty
  bookmarks := Keyed.Table.empty
  reports := Keyed.Table.empty
  quarantine := Keyed.Table.empty
  reportAdjustments := Keyed.Table.empty
  inbox := Keyed.Table.empty
  identities := Keyed.Table.empty
  settings := Keyed.Table.empty
  imports := Keyed.Table.empty
  memoSequence := 7

theorem clean_deletion_iff_author : ∃ tables,
    Deletion.commit (fun _ => true) pollTables (.user 4) = .ok tables ∧
      CleanDeletion pollTables tables :=
  ⟨_, rfl, (clean_deletion_iff (fun _ => true) (.user 4) pollTables _ rfl).mpr
    fun _ _ _ => rfl⟩

theorem deletion_refines_author : ∃ tables,
    Deletion.commit (fun _ => true) pollTables (.user 4) = .ok tables ∧
      Store.deleteUser pollTables.toState 4 = .ok tables.toState :=
  ⟨_, rfl, deletion_refines (show Deletion.commit (fun _ => true) pollTables (.user 4) = _ from rfl)⟩

/-- With a vote and a bookmark for it, these stay behind, whichever deletion it is. -/
theorem deleted_memo_voted : ∃ tables,
    let before : Tables := { pollTables with
      pollVotes := ⟨[⟨1, 7, 5, "pizza", "", 0⟩], by decide, by decide⟩
      bookmarks := ⟨[⟨5, 7, 0⟩], by decide, by decide⟩ }
    Deletion.commit (fun _ => true) before (.memoSet [7]) = .ok tables ∧
      before.HasMemo 7 ∧ ¬ tables.HasMemo 7 ∧ tables.records 7 = true ∧
      ¬ CleanDeletion before tables := by
  refine ⟨_, rfl, ⟨pollMemo, List.mem_cons_self, rfl⟩, ?_, rfl, fun clean => ?_⟩
  · rintro ⟨memo, hmemo, -⟩
    cases hmemo
  · have none := clean.memos 7 ⟨pollMemo, List.mem_cons_self, rfl⟩ fun ⟨memo, hmemo, _⟩ => by
      cases hmemo
    cases none

end Memos.Store
