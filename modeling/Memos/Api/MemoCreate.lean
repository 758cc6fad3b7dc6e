/-
Creating memos and comments through the API.

Both kinds of requests prepare a row from the message they carry and hand it to the store
with its attachments and references, as one mutation.  A comment is a memo that is placed
where the memo it is about is, and that is neither hidden, anonymous nor a draft.

The identifier of a memo comes with the request or is drawn; what is drawn, and how long
an author waits between two memos, are parameters.
-/
import Memos.Api.MemoMessage
import Memos.Api.MemoUpdate

namespace Memos.Api

open Store Access

/-! ### Requests -/

structure CreateMemoRequest where
  memo : Option ProtoMemo
  memoID : String

structure CreateMemoCommentRequest where
  /-- The name of the memo the comment is about. -/
  name : String
  comment : Option ProtoMemo
  commentID : String

inductive CreateError where
  | status (status : Status)
  | AlreadyExists (message : String)
  | ResourceExhausted (message : String)

def asStatus {α : Type} : Except Status α → Except CreateError α
  | .ok a => .ok a
  | .error status => .error (.status status)

section Service

variable (service : APIV1Service)

/-- `newUID` is what `shortuuid.New` returns. -/
def APIV1Service.ValidateAndGenerateUID (newUID provided : String) : Except Status String :=
  let uid := String.ofList (trimSpace provided.toList)
  if uid = "" then .ok newUID
  else if !service.validUID uid then
    .error ⟨.InvalidArgument, "invalid UID: must be 1-36 characters, contain only letters, digits, or hyphens, and start and end with a letter or digit"⟩
  else .ok uid

/-! ### Preparing the row -/

structure PreparedMemoCreate where
  memo : MemoCreate
  attachments : PreparedMemoAttachments
  requiredAttachmentIDs : List Int
  referenceRelations : List MemoRelationRow

/-- What only administrators may ask for. -/
def checkMemoCreate (user : UserRow) (input : ProtoMemo) : Except Status Unit := do
  let denied := !isSuperUser (some user)
  refuseIf (input.hidden && denied) .PermissionDenied "only administrators can hide memos"
  refuseIf (input.hideTime && denied) .PermissionDenied
    "only administrators can hide memo timestamps"
  refuseIf (input.adminScript ≠ "" && denied) .PermissionDenied
    "only administrators can set memo scripts"
  refuseIf (denied && (input.createTime.isSome || input.updateTime.isSome)) .PermissionDenied
    "only administrators can customize memo timestamps"

/-- Whether the memo is a draft, and when it will be published. -/
def schedulePayload (now : Int) (draft : Bool) (publishTime : Option Timestamp)
    (payload : MemoPayload) : MemoPayload :=
  let publishTs := (publishTime.map Timestamp.Unix).getD 0
  let draft := draft || decide (now < publishTs)
  -- A draft whose time has come is not scheduled.
  if draft && decide (0 < publishTs) && decide (publishTs ≤ now) then
    { payload with draft, publishTs := 0 }
  else { payload with draft, publishTs }

def APIV1Service.createSpace (state : State) (user : UserRow) (input : ProtoMemo) :
    Except Status (Option Int) :=
  if input.space.getD "" = "" then .ok none
  else (service.resolveWritableSpaceByName state (input.space.getD "") user.id).map fun space =>
    some space.id

/-- The category of the memo, if the message has one. -/
def APIV1Service.createCategory (user : UserRow) : Option String → Except Status String
  | none => .ok ""
  | some category => service.normalizeMemoCategory user category

/-- The fields that a memo and a comment share, checked and filled in; nothing is written. -/
def APIV1Service.prepareMemoCreate (db : Tables) (now authUserID : Int) (user : UserRow)
    (input : ProtoMemo) (uid : String) : Except Status PreparedMemoCreate := do
  checkMemoCreate user input
  validateMemoAdminScript input.adminScript
  service.validateMemoLocalScripts input.content (isSuperUser (some user))
  let visibility ← validateCreateMemoVisibility input.visibility
  let spaceID ← service.createSpace db.toState user input
  refuseIf (visibility = .SpaceAudience && spaceID.isNone) .InvalidArgument
    "SPACE visibility requires a space"
  let createdTs := ((input.createTime.filter Timestamp.IsValid).map Timestamp.Unix).getD 0
  let updatedTs := ((input.updateTime.filter Timestamp.IsValid).map Timestamp.Unix).getD 0
  refuseIf (service.contentLengthLimit < input.content.utf8ByteSize) .InvalidArgument
    ("content too long (max " ++ toString service.contentLengthLimit ++ " characters)")
  service.validateTextContent [input.content]
  let data ← refused .Internal
    "failed to rebuild memo payload: failed to extract markdown metadata: "
    (service.extractAll input.content)
  refuseIf (input.publishTime.any fun t => !t.IsValid) .InvalidArgument "publish_time is invalid"
  let category ← service.createCategory user input.category
  refused .InvalidArgument "" (validatePoll input.poll)
  let payload := schedulePayload now input.draft input.publishTime
    { data.rebuild { title := "" } with
      location := input.location
      category
      hidden := input.hidden
      anonymous := input.anonymous
      adminScript := input.adminScript
      hideTime := input.hideTime
      poll := (service.pollToStore 0 input.poll).1 }
  let memo : MemoCreate :=
    { uid
      creatorID := user.id
      createdTs
      updatedTs
      content := input.content
      visibility := if input.hidden then .Public else visibility
      payload := some payload
      spaceID }
  -- The row has no id yet.
  let attachments ← service.prepareMemoAttachments db user (memo.row 0 now) input.attachments
  let requiredAttachmentIDs ←
    service.resolveMemoAttachmentReferences memo.content attachments.normalized
  service.reviewMemoImages memo.content payload.poll attachments.normalized
  input.poll.elim (.ok ()) fun poll =>
    service.validateTextContent (poll.question :: poll.options.map ProtoPollOption.text)
  let referenceRelations ←
    service.prepareMemoRelations db.toState now authUserID (memo.row 0 now) [] input.relations
  return { memo, attachments, requiredAttachmentIDs, referenceRelations }

/-! ### The store -/

def APIV1Service.mapMemoCreateError (uid operation : String) (err : StoreError) : CreateError :=
  if err = .Constraint .unique then
    .AlreadyExists ("memo with ID " ++ service.quote uid ++ " already exists")
  else .status (mapMemoWriteError operation err)

def createMutation (now : Int) (commentContextMemoID : Option Int)
    (prepared : PreparedMemoCreate) : MemoMutation :=
  { importRecord := none
    memoCreate := some prepared.memo
    commentContextMemoID
    memoID := 0
    memoCreatorID := prepared.memo.creatorID
    expectedMemoContent := prepared.memo.content
    memoUpdate := none
    bindings := buildMemoAttachmentMutationBindings now prepared.attachments
    removedAttachmentIDs := []
    requiredAttachmentIDs := prepared.requiredAttachmentIDs
    replaceReferenceRelations := !prepared.referenceRelations.isEmpty
    referenceRelations := prepared.referenceRelations.map fun relation =>
      { relation with memoID := 0 }
    policy := none }

/-- The database with the memo, and the memo, which has its uid. -/
def APIV1Service.createMemoWithMutation (db : Tables) (now : Int)
    (commentContextMemoID : Option Int) (prepared : PreparedMemoCreate) (operation : String) :
    Except CreateError (Tables × Option MemoRow) :=
  match Store.applyMemoMutation service.validUID service.readable service.importHash db now
      (createMutation now commentContextMemoID prepared) with
  | .ok db => .ok (db, getMemo db.toState prepared.memo.uid)
  | .error err => .error (service.mapMemoCreateError prepared.memo.uid operation err)

/-! ### The requests -/

/-- The seconds an author still waits: `ListMemos` has their newest memo first. -/
def cooldownRemaining (db : Tables) (now publishCooldownSeconds userID : Int) : Int :=
  let recent := ((db.memos.select fun memo =>
    decide (memo.deletedTs = none) && decide (memo.creatorID = userID)).insertionSort
      fun a b => b.createdTs < a.createdTs
        || (decide (b.createdTs = a.createdTs) && decide (b.id ≤ a.id))).head?
  recent.elim 0 fun memo => publishCooldownSeconds - (now - memo.createdTs)

def checkPublishCooldown (db : Tables) (now publishCooldownSeconds : Int) (user : UserRow) :
    Except CreateError Unit :=
  let remaining := cooldownRemaining db now publishCooldownSeconds user.id
  if !isSuperUser (some user) && 0 < publishCooldownSeconds && 0 < remaining then
    .error (.ResourceExhausted ("please wait " ++ toString remaining
      ++ " seconds before publishing again"))
  else .ok ()

def fetchAuthor (state : State) (authUserID : Int) : Except Status UserRow := do
  let caller ← (fetchCurrentUser state authUserID).mapError fun _ =>
    (⟨.Internal, "failed to get user"⟩ : Status)
  orRefuse caller .Unauthenticated "user not authenticated"

/-- `CreateMemo`, with the database it leaves behind and the memo it has created.  What it
reports to others afterwards is left out, as in `CreateMemoComment`. -/
def APIV1Service.createMemo (db : Tables) (now authUserID publishCooldownSeconds : Int)
    (newUID : String) (request : CreateMemoRequest) :
    Except CreateError (Tables × Option MemoRow) := do
  let user ← asStatus (fetchAuthor db.toState authUserID)
  let input ← asStatus (orRefuse request.memo .InvalidArgument "memo is required")
  checkPublishCooldown db now publishCooldownSeconds user
  let memoUID ← asStatus (service.ValidateAndGenerateUID newUID request.memoID)
  let prepared ← asStatus (service.prepareMemoCreate db now authUserID user input memoUID)
  service.createMemoWithMutation db now none prepared "failed to create memo"

def commentMessage (state : State) (relatedMemo : MemoRow) (comment : ProtoMemo) :
    Except Status ProtoMemo :=
  let comment :=
    { comment with
      hidden := false, anonymous := false, draft := false, publishTime := none, space := none }
  match relatedMemo.spaceID with
  | none => .ok comment
  | some spaceID => do
      let space ← orRefuse (getSpace state spaceID) .FailedPrecondition
        "memo has invalid space placement"
      return { comment with space := some (buildSpaceName space.uid) }

/-- The memo a comment is about, which the author reads. -/
def APIV1Service.commentContext (db : Tables) (now authUserID : Int) (name : String) :
    Except Status (MemoRow × UserRow) := do
  let memoUID ← refused .InvalidArgument "invalid memo name: " (service.ExtractMemoUIDFromName name)
  let relatedMemo ← orRefuse (getMemo db.toState memoUID) .NotFound "memo not found"
  let user ← fetchAuthor db.toState authUserID
  checkMemoReadAccess service.library db.toState service.memoCategoriesJson now authUserID
    (some relatedMemo)
  refuseIf (relatedMemo.rowStatus ≠ .Normal) .FailedPrecondition
    "cannot comment on an archived memo"
  return (relatedMemo, user)

/-- `CreateMemoComment`, with the memo the comment is about. -/
def APIV1Service.createMemoComment (db : Tables) (now authUserID : Int) (newUID : String)
    (request : CreateMemoCommentRequest) :
    Except CreateError (Tables × Option MemoRow × MemoRow) := do
  let (relatedMemo, user) ← asStatus (service.commentContext db now authUserID request.name)
  let comment ← asStatus (orRefuse request.comment .InvalidArgument "comment is required")
  let comment ← asStatus (commentMessage db.toState relatedMemo comment)
  let memoUID ← asStatus (service.ValidateAndGenerateUID newUID request.commentID)
  asStatus (refuseIf (memoUID = relatedMemo.uid) .InvalidArgument
    "a memo cannot comment on itself")
  let prepared ← asStatus (service.prepareMemoCreate db now authUserID user comment memoUID)
  let (db, memo) ← service.createMemoWithMutation db now (some relatedMemo.id) prepared
    "failed to create memo comment"
  return (db, memo, relatedMemo)

end Service

end Memos.Api
