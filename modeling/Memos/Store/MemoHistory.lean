/-
The trash, on the SQLite driver.

A memo goes to the trash together with the live comments below it, and comes back with
those of them that went with it.  A deletion leaves nothing behind but a time in the
rows of the memos it trashed, the same in all of them, and this is how a restoration
knows what to bring back.  From the trash a memo can also be deleted for good, with
everything below it.
-/
import Memos.Lib.Worklist
import Memos.Store.Delete
import Memos.Store.MemoRelation

namespace Memos.Store

/-! ### Comments -/

def queryCommentChildren (db : Tables) (id : Int) : List Int :=
  (db.relations.select fun r =>
    decide (r.relatedMemoID = id) && decide (r.type = .Comment)).map MemoRelationRow.memoID

/-- The memo and all comments below it.  There is a step for every row, so the walk always
comes to its end. -/
def memoCommentTree (db : Tables) (id : Int) : List Int :=
  Worklist.walk (queryCommentChildren db) (db.relations.rows.length + 1) 0 [id]

/-! ### Into the trash and back -/

def MemoRow.withDeletedTs (deletedTs : Option Int) (memo : MemoRow) : MemoRow :=
  { memo with deletedTs }

theorem free_withDeletedTs (deletedTs : Option Int) :
    Keyed.Table.Free MemoRow.schema (MemoRow.withDeletedTs deletedTs) :=
  ⟨fun _ => rfl, fun _ _ => ⟨rfl, rfl⟩, fun _ => rfl⟩

/-- `UPDATE memo SET deleted_ts = … WHERE id = … AND …`, for each id. -/
def updateDeletedTs (memos : Keyed.Table MemoRow.schema) (ids : List Int) (p : MemoRow → Bool)
    (deletedTs : Option Int) : Keyed.Table MemoRow.schema :=
  ids.foldl (fun memos target => memos.modify (fun memo => decide (memo.id = target) && p memo)
    (MemoRow.withDeletedTs deletedTs) (free_withDeletedTs deletedTs)) memos

def softDeleteMemoSet (db : Tables) (id at' : Int) : Tables :=
  { db with
    memos := updateDeletedTs db.memos (memoCommentTree db id) (fun memo => memo.deletedTs.isNone)
      (some at') }

/-- A comment's parent must still exist and be outside the trash. -/
def parentUnavailable (db : Tables) (id : Int) (r : MemoRelationRow) : Bool :=
  decide (r.memoID = id) && decide (r.type = .Comment)
    && (db.memos.find? r.relatedMemoID).all fun parent => parent.deletedTs.isSome

def restoreDeletedMemo (db : Tables) (id actorID : Int) (admin : Bool) : Except StoreError Tables := do
  let actor ← orElse (db.users.find? actorID) .MemoPermissionDenied
  require (actor.rowStatus = .Normal) .MemoPermissionDenied
  let memo ← orElse (db.memos.find? id) .NoRows
  require (memo.creatorID = actorID || (admin && actor.role = .Admin)) .MemoPermissionDenied
  let at' ← orElse memo.deletedTs .MemoMutationConflict
  require (db.relations.count (parentUnavailable db id) = 0) .MemoMutationConflict
  return { db with
    memos := updateDeletedTs db.memos (memoCommentTree db id)
      (fun memo => decide (memo.deletedTs = some at')) none }

/-! ### Deletions -/

structure DeleteMemoWithPolicy where
  /-- The time of a deletion into the trash; without it, the memo is deleted for good. -/
  deletedTs : Option Int
  requireDeleted : Bool
  memoID : Int
  actorUserID : Int
  adminOverride : Bool

structure DeleteMemoWithPolicyResult where
  actorCanRead : Bool
  attachments : List AttachmentRow

def MemoDeleteActorCanRead (rowStatus : RowStatus) (visibility : Visibility) (spaceID : Option Int)
    (spaceExists actorMember : Bool) : Bool :=
  (rowStatus = .Normal || rowStatus = .Archived) && match visibility with
    | .Public | .Protected | .Private => true
    | .SpaceAudience => spaceID.isSome && spaceExists && actorMember
    | .unrecognised => false

def sqliteSpaceMemberAdmin (state : State) (spaceID userID : Int) : Bool :=
  (state.members.select fun sm =>
    decide (sm.spaceID = spaceID) && decide (sm.userID = userID) && decide (sm.status = .Active)
      && (sm.role = .Admin || sm.role = .User)).head?.any fun sm => decide (sm.role = .Admin)

def DeleteMemoWithPolicy.memoIDs (db : Tables) (delete : DeleteMemoWithPolicy) : List Int :=
  if delete.requireDeleted then memoCommentTree db delete.memoID else [delete.memoID]

def deleteMemoWithPolicy (readable : String → Bool) (db : Tables) (delete : DeleteMemoWithPolicy) :
    Except StoreError (Tables × DeleteMemoWithPolicyResult) := do
  require (0 < delete.memoID && 0 < delete.actorUserID)
    (.Invalid "memo deletion requires memo and actor")
  let actor ← orElse (db.users.find? delete.actorUserID) .MemoPermissionDenied
  require (actor.rowStatus = .Normal) .MemoPermissionDenied
  let memo ← orElse (db.memos.find? delete.memoID) .MemoMutationConflict
  let spaceExists := memo.spaceID.any fun spaceID =>
    db.spaces.any fun space => decide (space.id = spaceID)
  let actorMember := spaceExists && memo.spaceID.any fun spaceID =>
    sqliteSpaceMemberActive db.toState spaceID delete.actorUserID
  let spaceAdmin := spaceExists && memo.spaceID.any fun spaceID =>
    sqliteSpaceMemberAdmin db.toState spaceID delete.actorUserID
  require (memo.creatorID = delete.actorUserID
      || (delete.adminOverride && (actor.role = .Admin || spaceAdmin))) .MemoPermissionDenied
  let actorCanRead :=
    MemoDeleteActorCanRead memo.rowStatus memo.visibility memo.spaceID spaceExists actorMember
  require (!delete.requireDeleted || memo.deletedTs.isSome) .MemoMutationConflict
  match delete.deletedTs with
  | some at' =>
      return (softDeleteMemoSet db delete.memoID at', { actorCanRead, attachments := [] })
  | none => do
      let (db, attachments) ← deleteSQLiteMemoSetTx readable db (delete.memoIDs db)
      return (db, { actorCanRead, attachments })

/-- The expiration of the trash; nothing happens when the memo is gone already. -/
def purgeDeletedMemo (readable : String → Bool) (db : Tables) (id : Int) :
    Except StoreError (Tables × List AttachmentRow) :=
  match db.memos.find? id with
  | none => .ok (db, [])
  | some memo => do
      require memo.deletedTs.isSome .MemoMutationConflict
      deleteSQLiteMemoSetTx readable db (memoCommentTree db id)

/-! ### Runs -/

inductive TrashOperation where
  | delete (policy : DeleteMemoWithPolicy)
  | restore (id actorID : Int) (admin : Bool)
  | purge (id : Int)

def TrashOperation.memoID : TrashOperation → Int
  | .delete policy => policy.memoID
  | .restore id _ _ => id
  | .purge id => id

def TrashOperation.commit (readable : String → Bool) (db : Tables) :
    TrashOperation → Except StoreError Tables
  | .delete policy => (deleteMemoWithPolicy readable db policy).map Prod.fst
  | .restore id actorID admin => restoreDeletedMemo db id actorID admin
  | .purge id => (purgeDeletedMemo readable db id).map Prod.fst

/-- An operation that fails, for a reason of its own or from outside, leaves the database as
it was. -/
def TrashOperation.perform (readable : String → Bool) (db : Tables)
    (action : TrashOperation × Bool) : Option Tables :=
  match action.1.commit readable db, action.2 with
  | .ok committed, false => some committed
  | _, _ => some db

end Memos.Store
