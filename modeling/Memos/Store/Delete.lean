/-
Hard deletion, on the SQLite driver.

A memo, a Space or a user is deleted together with rows of a dozen other tables, and
each of the three deletions has its own list of statements for that.  A statement names
the ids it is about, and a long list of ids is split, so that a statement is made for
each batch of them.  External objects cannot be deleted within the transaction.  What is
needed to delete them later is put into a queue.

Each deletion is one transaction, as the operations on Spaces are.
-/
import Memos.Store.Dependents
import Memos.Store.Spaces
import Mathlib.Data.List.Sort

namespace Memos.Store

/-! ### Batches -/

def deleteUserBatchSize : Nat := 500

/-- The values from `0`, from `size`, from `2 * size` and so on. -/
def deleteUserBatches {α : Type} (values : List α) (size : Nat) : List (List α) :=
  let size := if size = 0 then values.length else size
  (List.range ((values.length + size - 1) / size)).map fun i => (values.drop (i * size)).take size

/-- `DELETE … WHERE p`, for each batch of the ids. -/
def deleteBatches {Key Row : Type} {schema : Keyed.Schema Key Row} (t : Keyed.Table schema)
    (ids : List Int) (p : List Int → Row → Bool) : Keyed.Table schema :=
  (deleteUserBatches ids deleteUserBatchSize).foldl (fun t batch => t.delete (p batch)) t

/-! ### Attachments -/

/-- What the queue keeps of an attachment: the columns the deletion has read. -/
def AttachmentRow.cleanupSnapshot (a : AttachmentRow) : AttachmentRow :=
  { a with createdTs := 0, updatedTs := 0, filename := "", blob := none, type := "", size := 0 }

def enqueueAttachmentCleanup (db : Tables) (attachments : List AttachmentRow) : Tables :=
  attachments.foldl (fun db a => { db with
    attachmentCleanup := db.attachmentCleanup.insertOrIgnore
      { attachmentID := a.id, snapshot := a.cleanupSnapshot, attemptedTs := 0 } rfl }) db

/-- Appends the rows whose ids have not been seen; the ids that have been seen are those of
the list.  Whether a payload parses is for `protojson` to say. -/
def appendDeleteUserAttachments (readable : String → Bool) (attachments rows : List AttachmentRow) :
    Except StoreError (List AttachmentRow) :=
  rows.foldlM (fun attachments row => do
    if attachments.any fun a => decide (a.id = row.id) then return attachments
    require (row.payload = "" || readable row.payload) .Unreadable
    return attachments ++ [row]) attachments

def listSQLiteMemoSetAttachments (readable : String → Bool) (db : Tables) (memoIDs : List Int) :
    Except StoreError (List AttachmentRow) :=
  (deleteUserBatches memoIDs deleteUserBatchSize).foldlM (fun attachments batch =>
    appendDeleteUserAttachments readable attachments
      ((db.attachments.select fun a => a.memoID.any batch.contains).insertionSort
        fun a b => a.id ≤ b.id)) []

/-! ### Statements -/

def deleteReactionsByMemoIDsTx (db : Tables) (memoIDs : List Int) : Tables :=
  { db with reactions := deleteBatches db.reactions memoIDs fun batch r => batch.contains r.memoID }

def deleteAttachmentsByIDsTx (db : Tables) (attachmentIDs : List Int) : Tables :=
  { db with
    attachments := deleteBatches db.attachments attachmentIDs fun batch a => batch.contains a.id }

def deleteReactionsByCreatorTx (db : Tables) (userID : Int) : Tables :=
  { db with reactions := db.reactions.delete fun r => decide (r.creatorID = userID) }

def deleteSQLiteMemoSetShares (db : Tables) (memoIDs : List Int) : Tables :=
  { db with shares := deleteBatches db.shares memoIDs fun batch share => batch.contains share.memoID }

def deleteMemoSharesTx (db : Tables) (userID : Int) (memoIDs : List Int) : Tables :=
  deleteSQLiteMemoSetShares
    { db with shares := db.shares.delete fun share => decide (share.creatorID = userID) } memoIDs

def deleteInboxesByIDsTx (db : Tables) (inboxIDs : List Int) : Tables :=
  { db with inbox := deleteBatches db.inbox inboxIDs fun batch inbox => batch.contains inbox.id }

def deleteUserIdentitiesTx (db : Tables) (userID : Int) : Tables :=
  { db with identities := db.identities.delete fun identity => decide (identity.userID = userID) }

def deleteUserSettingsTx (db : Tables) (userID : Int) : Tables :=
  { db with settings := db.settings.delete fun setting => decide (setting.userID = userID) }

def deleteMemoRelationsTx (db : Tables) (memoIDs : List Int) : Tables :=
  { db with
    relations := deleteBatches db.relations memoIDs fun batch r =>
      batch.contains r.memoID || batch.contains r.relatedMemoID }

/-- Here every id has a statement of its own. -/
def deleteMemoSetRevisions (db : Tables) (ids : List Int) : Tables :=
  ids.foldl (fun db id => { db with
    revisions := db.revisions.delete fun revision => decide (revision.memoID = id) }) db

def deleteMemosTx (db : Tables) (memoIDs : List Int) : Tables :=
  let db := deleteMemoSetRevisions db memoIDs
  { db with memos := deleteBatches db.memos memoIDs fun batch memo => batch.contains memo.id }

def deleteUserRowTx (db : Tables) (userID : Int) : Tables :=
  { db with users := db.users.delete fun u => decide (u.id = userID) }

/-! ### Memos and Spaces -/

def deleteSQLiteMemoSetTx (readable : String → Bool) (db : Tables) (memoIDs : List Int) :
    Except StoreError (Tables × List AttachmentRow) := do
  let attachments ← listSQLiteMemoSetAttachments readable db memoIDs
  let db := enqueueAttachmentCleanup db attachments
  let db := deleteSQLiteMemoSetShares db memoIDs
  let db := deleteMemosTx db memoIDs
  let db := deleteReactionsByMemoIDsTx db memoIDs
  let db := deleteAttachmentsByIDsTx db (attachments.map AttachmentRow.id)
  let db := deleteMemoRelationsTx db memoIDs
  return (db, attachments)

/-- The ids of the memos a condition selects, in order. -/
def memoIDsWhere (db : Tables) (p : MemoRow → Bool) : List Int :=
  ((db.memos.select p).map MemoRow.id).insertionSort (· ≤ ·)

def Tables.deleteSpace (readable : String → Bool) (db : Tables) (delete : DeleteSpace) :
    Except StoreError (Tables × List AttachmentRow) := do
  requireSpaceDeleteAdmin db.toState delete
  let memoIDs := memoIDsWhere db fun memo => decide (memo.spaceID = some delete.id)
  let (db, attachments) ← deleteSQLiteMemoSetTx readable db memoIDs
  let members := db.members.delete fun sm => decide (sm.spaceID = delete.id)
  let deleted := db.spaces.count fun space => decide (space.id = delete.id)
  let spaces := db.spaces.delete fun space => decide (space.id = delete.id)
  require (deleted = 1) .SpaceNotFound
  return ({ db with members, spaces }, attachments)

/-! ### Users -/

structure DeleteUserTargetSet where
  memoIDs : List Int
  attachments : List AttachmentRow
  attachmentIDs : List Int
  userSettingKeys : List String
  inboxIDs : List Int

structure DeleteUserResult where
  attachments : List AttachmentRow
  userSettingKeys : List String

def listDeleteUserAttachments (readable : String → Bool) (db : Tables) (userID : Int)
    (memoIDs : List Int) : Except StoreError (List AttachmentRow) := do
  let attachments ← appendDeleteUserAttachments readable []
    (db.attachments.select fun a => decide (a.creatorID = userID))
  (deleteUserBatches memoIDs deleteUserBatchSize).foldlM (fun attachments batch =>
    appendDeleteUserAttachments readable attachments
      (db.attachments.select fun a => a.memoID.any batch.contains)) attachments

def collectDeleteUserTargets (readable : String → Bool) (db : Tables) (userID : Int) :
    Except StoreError DeleteUserTargetSet := do
  let memoIDs := memoIDsWhere db fun memo => decide (memo.creatorID = userID)
  let attachments ← listDeleteUserAttachments readable db userID memoIDs
  let userSettingKeys := (db.settings.select fun setting =>
    decide (setting.userID = userID)).map UserSettingRow.key
  let inboxIDs := (db.inbox.select fun inbox =>
    decide (inbox.senderID = userID) || decide (inbox.receiverID = userID)).map InboxRow.id
  let attachmentIDs := attachments.map AttachmentRow.id
  return { memoIDs, attachments, attachmentIDs, userSettingKeys, inboxIDs }

def deleteUserTargetsTx (db : Tables) (userID : Int) (targets : DeleteUserTargetSet) : Tables :=
  let db := enqueueAttachmentCleanup db targets.attachments
  let memoIDs := targets.memoIDs
  let db := deleteMemosTx db memoIDs
  let db := deleteReactionsByMemoIDsTx db memoIDs
  let db := deleteAttachmentsByIDsTx db targets.attachmentIDs
  let db := deleteReactionsByCreatorTx db userID
  let db := deleteMemoSharesTx db userID memoIDs
  let db := deleteInboxesByIDsTx db targets.inboxIDs
  let db := deleteUserIdentitiesTx db userID
  let db := deleteUserSettingsTx db userID
  let db := deleteMemoRelationsTx db memoIDs
  deleteUserRowTx db userID

/-- Deleting a missing user succeeds and does nothing. -/
def Tables.deleteUser (readable : String → Bool) (db : Tables) (userID : Int) :
    Except StoreError (Tables × DeleteUserResult) := do
  if (db.users.find? userID).isNone then return (db, { attachments := [], userSettingKeys := [] })
  let membershipCount := db.members.count fun sm =>
    decide (sm.userID = userID) && decide (sm.status ≠ .Invited)
  require (membershipCount = 0) .UserHasSpaceMembership
  let db := { db with
    members := db.members.delete fun sm =>
      decide (sm.userID = userID) && decide (sm.status = .Invited) }
  let targets ← collectDeleteUserTargets readable db userID
  return (deleteUserTargetsTx db userID targets,
    { attachments := targets.attachments, userSettingKeys := targets.userSettingKeys })

/-! ### The three deletions -/

inductive Deletion where
  | memoSet (memoIDs : List Int)
  | space (delete : DeleteSpace)
  | user (userID : Int)

/-- The database a deletion commits. -/
def Deletion.commit (readable : String → Bool) (db : Tables) : Deletion → Except StoreError Tables
  | .memoSet memoIDs => (deleteSQLiteMemoSetTx readable db memoIDs).map Prod.fst
  | .space delete => (db.deleteSpace readable delete).map Prod.fst
  | .user userID => (db.deleteUser readable userID).map Prod.fst

end Memos.Store
