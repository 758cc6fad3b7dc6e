/-
Writing a memo with its attachments and relations, on the SQLite driver.

A mutation creates or updates a memo, binds attachments to it, removes some that are
bound to it, and replaces its references to other memos.  Validation in front of the
driver compares the lists of the request with each other; everything that depends on the
database is checked again inside the transaction, between the statements.
-/
import Memos.Store.Delete
import Memos.Store.MemoRelation
import Memos.Store.MemoWrite

namespace Memos.Store

/-! ### Mutations -/

structure MemoCreate where
  uid : String
  creatorID : Int
  /-- Zero for the time of the insertion, as is `updatedTs`. -/
  createdTs : Int
  updatedTs : Int
  content : String
  visibility : Visibility
  payload : Option MemoPayload
  spaceID : Option Int

structure MemoAttachmentBinding where
  id : Int
  uid : String
  updatedTs : Int
  /-- The binding exists, and its row may belong to another user. -/
  wasBoundToMemo : Bool

structure MemoImportRecord where
  source : String
  sourceID : String
  jobID : String
  createdTs : Int
  updatedTs : Int

structure MemoMutation where
  importRecord : Option MemoImportRecord
  memoCreate : Option MemoCreate
  commentContextMemoID : Option Int
  memoID : Int
  memoCreatorID : Int
  expectedMemoContent : String
  memoUpdate : Option UpdateMemo
  bindings : List MemoAttachmentBinding
  removedAttachmentIDs : List Int
  requiredAttachmentIDs : List Int
  replaceReferenceRelations : Bool
  referenceRelations : List MemoRelationRow
  policy : Option MemoWritePolicy

/-! ### In front of the driver -/

def validateMemoCreate (validUID : String → Bool) (create : MemoCreate) :
    Except StoreError Unit := do
  require (validUID create.uid) (.Invalid "invalid uid")
  require (isValidVisibility create.visibility) (.Invalid "invalid visibility")
  require (!(create.visibility = .SpaceAudience && create.spaceID.isNone))
    (.Invalid "SPACE visibility requires a space")

def validateRemovedAttachmentIDs : Option Int → List Int → Except StoreError Unit
  | _, [] => return
  | before, id :: rest => do
      require (0 < id) (.Invalid "removed attachment IDs must be positive")
      require (before ≠ some id) (.Invalid "duplicate removed attachment ID")
      validateRemovedAttachmentIDs (some id) rest

/-- The loop over the relations, with the memos they refer to that were seen. -/
def validateReferenceRelations (mutation : MemoMutation) :
    List Int → List MemoRelationRow → Except StoreError Unit
  | _, [] => return
  | seen, relation :: rest => do
      require (0 < relation.relatedMemoID && relation.type = .Reference)
        (.Invalid "only REFERENCE memo relations may be mutated")
      require (mutation.memoCreate.isSome || relation.memoID = mutation.memoID)
        (.Invalid "reference relation source does not match memo mutation")
      require (!(0 < mutation.memoID && relation.relatedMemoID = mutation.memoID))
        (.Invalid "reflexive memo relations are not allowed")
      require (!seen.contains relation.relatedMemoID) (.Invalid "duplicate memo reference relation")
      validateReferenceRelations mutation (relation.relatedMemoID :: seen) rest

/-- The checks on a mutation that creates a memo, and what they fill in. -/
def prepareMemoCreate (validUID : String → Bool) (mutation : MemoMutation) (create : MemoCreate) :
    Except StoreError MemoMutation := do
  require (mutation.memoUpdate.isNone && mutation.policy.isNone
      && mutation.removedAttachmentIDs.isEmpty)
    (.Invalid "memo creation mutation cannot update or remove existing state")
  require (0 < create.creatorID) (.Invalid "memo creation mutation requires creator")
  validateMemoCreate validUID create
  require (mutation.commentContextMemoID.all fun id => decide (0 < id))
    (.Invalid "comment creation mutation requires a valid context memo")
  return { mutation with
    memoCreatorID := create.creatorID, expectedMemoContent := create.content }

/-- The part of `Store.ApplyMemoMutation` in front of the driver, with the mutation it
passes on. -/
def prepareMemoMutation (validUID : String → Bool) (mutation : MemoMutation) :
    Except StoreError MemoMutation := do
  let mutation ← mutation.memoCreate.elim (.ok mutation) (prepareMemoCreate validUID mutation)
  onlyIf mutation.policy.isSome (mutation.policy.elim (.ok ()) validateMemoWritePolicy)
  let removedAttachmentIDs := mutation.removedAttachmentIDs.insertionSort (· ≤ ·)
  validateRemovedAttachmentIDs none removedAttachmentIDs
  require (!mutation.bindings.any fun binding => removedAttachmentIDs.contains binding.id)
    (.Invalid "attachment cannot be both bound and removed")
  require (!mutation.requiredAttachmentIDs.any removedAttachmentIDs.contains)
    (.Invalid "attachment cannot be both required and removed")
  require (!((mutation.policy.any MemoWritePolicy.lifecycleOnly)
      && (!mutation.bindings.isEmpty || !removedAttachmentIDs.isEmpty
        || !mutation.requiredAttachmentIDs.isEmpty || mutation.replaceReferenceRelations)))
    .MemoSpaceMembershipRequired
  onlyIf mutation.replaceReferenceRelations do
    require (0 < mutation.memoCreatorID) (.Invalid "reference relation mutation requires an actor")
    validateReferenceRelations mutation [] mutation.referenceRelations
  return { mutation with removedAttachmentIDs }

/-! ### Creating the memo -/

def validateSQLiteMemoSpaceWriter (state : State) (spaceID userID : Int) :
    Except StoreError Unit := do
  let space := memoPolicySpaceState state spaceID userID
  require space.found .MemoSpaceNotWritable
  require (SpaceWriteAllowed space.accessMode space.memberActive) .MemoSpaceMembershipRequired

def validateSQLiteMemoCreate (state : State) (create : MemoCreate) : Except StoreError Unit := do
  let actor ← orElse (state.users.find? create.creatorID) .MemoSpaceMembershipRequired
  require (actor.rowStatus = .Normal) .MemoSpaceMembershipRequired
  match create.spaceID with
  | some spaceID => validateSQLiteMemoSpaceWriter state spaceID create.creatorID
  | none => return

structure MemoCommentAuthorizationSnapshot where
  actorUserID : Int
  actorActive : Bool
  contextID : Int
  contextCreatorID : Int
  contextRowStatus : RowStatus
  contextVisibility : Visibility
  contextSpaceID : Option Int
  contextSpaceExists : Bool
  contextMemberActive : Bool

def ValidateMemoCommentAuthorization (snapshot : MemoCommentAuthorizationSnapshot) :
    Except StoreError Unit := do
  require (0 < snapshot.actorUserID && snapshot.actorActive) .MemoPermissionDenied
  require (0 < snapshot.contextID && snapshot.contextRowStatus = .Normal
    && isValidVisibility snapshot.contextVisibility) .MemoSpaceNotWritable
  if snapshot.contextSpaceID.isNone then
    require (snapshot.contextVisibility ≠ .SpaceAudience) .MemoSpaceNotWritable
  else
    require snapshot.contextSpaceExists .MemoSpaceNotWritable
    require snapshot.contextMemberActive .MemoSpaceMembershipRequired
  match snapshot.contextVisibility with
  | .Private => require (snapshot.contextCreatorID = snapshot.actorUserID) .MemoPermissionDenied
  | .Protected | .Public | .SpaceAudience => return
  | .unrecognised => .error .MemoSpaceNotWritable

def loadSQLiteMemoParticipation (state : State) (memoID actorUserID : Int) :
    Except StoreError MemoCommentAuthorizationSnapshot := do
  let actor ← orElse (state.users.find? actorUserID) .MemoPermissionDenied
  let memo ← orElse (getSQLiteRelationMemoState state memoID) .NoRows
  return {
    actorUserID
    actorActive := actor.rowStatus = .Normal
    contextID := memoID
    contextCreatorID := memo.creatorID
    contextRowStatus := memo.rowStatus
    contextVisibility := memo.visibility
    contextSpaceID := memo.spaceID
    contextSpaceExists := memo.spaceID.any fun spaceID =>
      state.spaces.any fun space => decide (space.id = spaceID)
    contextMemberActive := memo.spaceID.any fun spaceID =>
      sqliteSpaceMemberActive state spaceID actorUserID }

def authorizeSQLiteMemoComment (state : State) (contextMemoID actorUserID : Int) :
    Except StoreError Unit :=
  match loadSQLiteMemoParticipation state contextMemoID actorUserID with
  | .ok snapshot => ValidateMemoCommentAuthorization snapshot
  | .error .NoRows => .error .MemoSpaceNotWritable
  | .error err => .error err

/-- The row of a memo that is created, with the defaults of the schema. -/
def MemoCreate.row (create : MemoCreate) (id now : Int) : MemoRow :=
  { id
    uid := create.uid
    creatorID := create.creatorID
    createdTs := if create.createdTs ≠ 0 then create.createdTs else now
    updatedTs := if create.updatedTs ≠ 0 then create.updatedTs else now
    rowStatus := .Normal
    content := create.content
    visibility := create.visibility
    pinned := false
    payload := create.payload.getD { title := "" }
    spaceID := create.spaceID
    deletedTs := none
    lastEditorID := none }

/-- The memo that was inserted is returned by its id. -/
def insertSQLiteMemo (db : Tables) (now : Int) (create : MemoCreate) :
    Except StoreError (Tables × Int) := do
  let id := nextID db.memoSequence (db.memos.rows.map MemoRow.id)
  let memos ← constrained (.Constraint .unique) (db.memos.insert (create.row id now))
  return ({ db with memos, memoSequence := id }, id)

def insertSQLiteMemoCommentRelation (db : Tables) (memoID contextMemoID : Int) :
    Except StoreError Tables := do
  require (0 < memoID && 0 < contextMemoID && memoID ≠ contextMemoID)
    (.Invalid "invalid COMMENT relation")
  let relations ← constrained (.Constraint .unique)
    (db.relations.insert { memoID, relatedMemoID := contextMemoID, type := .Comment })
  return { db with relations }

/-- The memo of the mutation, created if it is to be, and the mutation about it. -/
def createMutationMemo (db : Tables) (now : Int) (mutation : MemoMutation) :
    Except StoreError (Tables × MemoMutation) :=
  match mutation.memoCreate with
  | none => .ok (db, mutation)
  | some create => do
      validateSQLiteMemoCreate db.toState create
      mutation.commentContextMemoID.elim (.ok ()) fun contextMemoID =>
        authorizeSQLiteMemoComment db.toState contextMemoID create.creatorID
      let (db, memoID) ← insertSQLiteMemo db now create
      let mutation := { mutation with
        memoID
        memoCreatorID := create.creatorID
        expectedMemoContent := create.content
        referenceRelations := mutation.referenceRelations.map fun relation =>
          { relation with memoID } }
      let db ← mutation.commentContextMemoID.elim (.ok db)
        (insertSQLiteMemoCommentRelation db memoID)
      return (db, mutation)

/-! ### Statements on attachments -/

def listSQLiteAttachmentSnapshots (readable : String → Bool) (db : Tables)
    (attachmentIDs : List Int) : Except StoreError (List AttachmentRow) :=
  (deleteUserBatches attachmentIDs deleteUserBatchSize).foldlM (fun attachments batch =>
    appendDeleteUserAttachments readable attachments
      ((db.attachments.select fun a => batch.contains a.id).insertionSort
        fun a b => a.id ≤ b.id)) []

def bindAttachment (memoID creatorID : Int) (attachments : Keyed.Table AttachmentRow.schema)
    (binding : MemoAttachmentBinding) : Except StoreError (Keyed.Table AttachmentRow.schema) := do
  let a ← orElse (attachments.find? binding.id) .MemoMutationConflict
  if binding.wasBoundToMemo then
    require (a.memoID = some memoID) .MemoMutationConflict
  else
    require (a.creatorID = creatorID && a.memoID.isNone) .MemoMutationConflict
  constrained (.Constraint .unique) (attachments.update (fun a => decide (a.id = binding.id))
    fun a => { a with memoID := some memoID, updatedTs := binding.updatedTs })

def removeAttachment (memoID : Int) (attachments : Keyed.Table AttachmentRow.schema)
    (removed : AttachmentRow) : Except StoreError (Keyed.Table AttachmentRow.schema) := do
  let bound := fun a : AttachmentRow => decide (a.id = removed.id) && decide (a.memoID = some memoID)
  require (attachments.count bound = 1) .MemoMutationConflict
  return attachments.delete bound

/-- The attachments after the bindings and removals, checked for the required ones. -/
def mutateAttachments (readable : String → Bool) (db : Tables) (mutation : MemoMutation) :
    Except StoreError (Keyed.Table AttachmentRow.schema) := do
  let removed ← listSQLiteAttachmentSnapshots readable db mutation.removedAttachmentIDs
  require (removed.length = mutation.removedAttachmentIDs.length) .MemoMutationConflict
  require (removed.all fun a =>
    decide (a.creatorID = mutation.memoCreatorID) && decide (a.memoID = some mutation.memoID))
    .MemoMutationConflict
  let attachments ← mutation.bindings.foldlM
    (bindAttachment mutation.memoID mutation.memoCreatorID) db.attachments
  let attachments ← removed.foldlM (removeAttachment mutation.memoID) attachments
  require (mutation.requiredAttachmentIDs.all fun id => attachments.any fun a =>
    decide (a.id = id) && decide (a.memoID = some mutation.memoID)) .MemoMutationConflict
  return attachments

/-! ### Statements on relations -/

/-- The memos whose readers are checked, each once and in order. -/
def sqliteRelationAuthorizationEndpointIDs (mutation : MemoMutation) : List Int :=
  let first :=
    if mutation.memoCreate.isNone && 0 < mutation.memoID then [mutation.memoID]
    else mutation.commentContextMemoID.toList
  ((first ++ mutation.referenceRelations.map MemoRelationRow.relatedMemoID).dedup).insertionSort
    (· ≤ ·)

/-- The update on a conflict writes the type that is there. -/
def replaceMemoReferenceRelations (db : Tables) (memoID : Int) (relations : List MemoRelationRow) :
    Except StoreError Tables := do
  let kept := db.relations.delete fun r => decide (r.memoID = memoID) && decide (r.type = .Reference)
  let relations ← relations.foldlM (fun t relation => do
    require (relation.memoID = memoID && relation.type = .Reference)
      (.Invalid "invalid memo reference relation mutation")
    return t.insertOrIgnore relation rfl) kept
  return { db with relations }

/-! ### The transaction -/

def recordMemoImport (importHash : String → String) (db : Tables) (now : Int)
    (mutation : MemoMutation) : Except StoreError Tables :=
  match mutation.importRecord with
  | none => .ok db
  | some record => do
      let create ← orElse mutation.memoCreate (.Invalid "invalid memo import mutation")
      require (record.source ≠ "" && record.sourceID ≠ "" && record.jobID ≠ "")
        (.Invalid "invalid memo import mutation")
      let actor ← orElse ((db.users.find? mutation.memoCreatorID).filter fun u =>
        decide (u.rowStatus = .Normal)) .NoRows
      onlyIf (actor.role ≠ .Admin) do
        let spaceID ← orElse create.spaceID .MemoPermissionDenied
        require (db.members.count (fun sm => decide (sm.spaceID = spaceID)
          && decide (sm.userID = mutation.memoCreatorID) && decide (sm.role = .Admin)) = 1)
          .MemoPermissionDenied
      let memos ← constrained (.Constraint .unique) (db.memos.update
        (fun memo => decide (memo.id = mutation.memoID)
          && decide (memo.creatorID = mutation.memoCreatorID))
        fun memo => { memo with createdTs := record.createdTs, updatedTs := record.updatedTs })
      let imports ← constrained (.Constraint .unique) (db.imports.insert
        { userID := mutation.memoCreatorID
          sourceHash := importHash record.source
          sourceIDHash := importHash record.sourceID
          source := record.source
          sourceID := record.sourceID
          memoID := mutation.memoID
          jobID := record.jobID
          createdTs := now })
      return { db with memos, imports }

/-- The update of the memo, which must be the one the attachments are about. -/
def updateMutationMemo (state : State) (now memoID : Int) (update : UpdateMemo) :
    Except StoreError State := do
  require (update.id = memoID) (.Invalid "memo update target does not match attachment mutation")
  applyMemoUpdate state now update

/-- The driver's `ApplyMemoMutation`, up to its `COMMIT`. -/
def driverApplyMemoMutation (readable : String → Bool) (importHash : String → String) (db : Tables)
    (now : Int) (mutation : MemoMutation) : Except StoreError Tables := do
  onlyIf (mutation.replaceReferenceRelations || mutation.commentContextMemoID.isSome)
    (validateSQLiteMemoRelationEndpoints db.toState mutation.memoCreatorID
      (sqliteRelationAuthorizationEndpointIDs mutation))
  let (db, mutation) ← createMutationMemo db now mutation
  (mutation.policy.or (mutation.memoUpdate.bind UpdateMemo.policy)).elim (.ok ()) fun policy =>
    validateMemoWrite db.toState now mutation.memoID policy mutation.memoUpdate
  let memo ← orElse (policyMemo db.toState mutation.memoID) .MemoMutationConflict
  require (memo.creatorID = mutation.memoCreatorID && memo.content = mutation.expectedMemoContent)
    .MemoMutationConflict
  let attachments ← mutateAttachments readable db mutation
  let db := { db with attachments }
  let state ← mutation.memoUpdate.elim (.ok db.toState)
    (updateMutationMemo db.toState now mutation.memoID)
  let db := { db with toState := state }
  let db ← (if mutation.replaceReferenceRelations then
      replaceMemoReferenceRelations db mutation.memoID mutation.referenceRelations
    else .ok db)
  recordMemoImport importHash db now mutation

def applyMemoMutation (validUID readable : String → Bool) (importHash : String → String)
    (db : Tables) (now : Int) (mutation : MemoMutation) : Except StoreError Tables := do
  let mutation ← prepareMemoMutation validUID mutation
  driverApplyMemoMutation readable importHash db now mutation

/-- The database afterwards, and whether the mutation succeeded; it also fails when a
statement is interrupted or the `COMMIT` fails. -/
def performMemoMutation (validUID readable : String → Bool) (importHash : String → String)
    (db : Tables) (now : Int) (mutation : MemoMutation) (interrupted : Bool) : Tables × Bool :=
  match applyMemoMutation validUID readable importHash db now mutation, interrupted with
  | .ok committed, false => (committed, true)
  | _, _ => (db, false)

end Memos.Store
