/-
Updating a memo through the API.

A request carries a memo and a mask, the list of the fields to take from it.  Where the
memo will be placed and who will be its audience is decided first, from the mask as a
whole.  A loop over the mask then writes all other fields, one path after the other, into
an update and into a copy of the memo.  What the loop yields is settled, reviewed and
handed to the store, as a mutation if attachments or relations may change with it.

A request takes no time: every clock in it reads the same second.
-/
import Memos.Api.MemoRequest

namespace Memos.Api

open Store Access

/-! ### Requests -/

/-- A path of an update mask. -/
inductive UpdatePath where
  | visibility
  | space
  | content
  | pinned
  | state
  | createTime
  | updateTime
  | displayTime
  | location
  | category
  | hidden
  | hideTime
  | anonymous
  | adminScript
  | draft
  | publishTime
  | poll
  | attachments
  | relations
  | unrecognised (path : String)
deriving DecidableEq

structure UpdateMemoRequest where
  memo : Option ProtoMemo
  /-- A mask that is missing has no paths. -/
  updateMask : List UpdatePath

/-- The comment's parent, if it is one: `GetMemo` reads it with the memo. -/
def isComment (db : Tables) (memo : MemoRow) : Bool :=
  db.relations.any fun r => decide (r.memoID = memo.id) && decide (r.type = .Comment)
    && (db.memos.find? r.relatedMemoID).isSome

/-! ### Placement and audience -/

def memoWritePolicy (actorUserID : Int) (lifecycleOnly : Bool) : MemoWritePolicy :=
  { actorUserID, adminOverride := false, lifecycleOnly, creatingShare := false }

def memoAdminWritePolicy (actorUserID : Int) (lifecycleOnly : Bool) : MemoWritePolicy :=
  { actorUserID, adminOverride := true, lifecycleOnly, creatingShare := false }

section Service

variable (service : APIV1Service)

/-- The update before anything is taken from the request. -/
def APIV1Service.emptyUpdate (memo : MemoRow) (revisionForce : Bool) : UpdateMemo :=
  { revisionLimit := some service.revisionLimit, revisionForce, id := memo.id, uid := none,
    createdTs := none, updatedTs := none, rowStatus := none, content := none, visibility := none,
    pinned := none, payload := none, spaceID := none, clearSpace := false, policy := none }

def APIV1Service.updateSpace (state : State) (user : UserRow) (input : ProtoMemo)
    (paths : List UpdatePath) (update : UpdateMemo) : Except Status UpdateMemo :=
  if paths.contains .space then
    if input.space.getD "" = "" then .ok { update with clearSpace := true }
    else do
      let target ← service.resolveWritableSpaceByName state (input.space.getD "") user.id
      return { update with spaceID := some target.id, clearSpace := false }
  else .ok update

def updateVisibility (input : ProtoMemo) (paths : List UpdatePath) (update : UpdateMemo) :
    Except Status UpdateMemo :=
  if paths.contains .visibility then do
    let nextVisibility ← validateUpdateMemoVisibility input.visibility
    return { update with visibility := some nextVisibility }
  else .ok update

/-- The first part of the update: the paths `space` and `visibility`, and the policy. -/
def APIV1Service.placeUpdate (state : State) (user : UserRow) (memo : MemoRow) (input : ProtoMemo)
    (paths : List UpdatePath) (revisionForce : Bool) : Except Status UpdateMemo := do
  refuseIf (memo.creatorID ≠ user.id && !isSuperUser (some user) && paths.contains .space)
    .PermissionDenied "only the memo creator or instance administrator can change memo placement"
  let update ← service.updateSpace state user input paths (service.emptyUpdate memo revisionForce)
  let nextSpaceID := if paths.contains .space then update.spaceID else memo.spaceID
  let update ← updateVisibility input paths update
  let nextVisibility := update.visibility.getD memo.visibility
  let spaceChanged := decide (memo.spaceID ≠ nextSpaceID)
  -- An author who is no member any more may move or withdraw the memo, and do nothing else.
  let lifecycleOnly := paths.contains .space
    && paths.all (fun path => decide (path = .space) || decide (path = .visibility)) && spaceChanged
  refuseIf (nextVisibility = .SpaceAudience && nextSpaceID.isNone) .InvalidArgument
    "SPACE visibility requires a space"
  refuseIf (memo.visibility = .SpaceAudience && spaceChanged && !paths.contains .visibility)
    .InvalidArgument "moving a memo with SPACE visibility requires an explicit visibility update"
  refuseIf (memo.visibility = .SpaceAudience && nextSpaceID.isNone
    && nextVisibility = .SpaceAudience)
    .InvalidArgument "unassigning a memo with SPACE visibility requires a replacement visibility"
  return { update with
    policy := some (if memo.creatorID ≠ user.id then memoAdminWritePolicy user.id lifecycleOnly
      else memoWritePolicy user.id lifecycleOnly) }

/-! ### The mask -/

/-- The first loop over the mask: what only administrators may change. -/
def checkAdministratorPath (user : UserRow) (input : ProtoMemo) (path : UpdatePath) :
    Except Status Unit :=
  let denied := !isSuperUser (some user)
  match path with
  | .hidden => refuseIf denied .PermissionDenied "only administrators can hide memos"
  | .hideTime => refuseIf denied .PermissionDenied "only administrators can hide memo timestamps"
  | .pinned => refuseIf denied .PermissionDenied "only administrators can pin memos"
  | .createTime =>
      refuseIf denied .PermissionDenied "only administrators can customize memo timestamps"
  | .adminScript => refuseIf denied .PermissionDenied "only administrators can set memo scripts"
  -- Without a value it is the time of the edit, which anybody may set.
  | .updateTime =>
      refuseIf (input.updateTime.isSome && denied) .PermissionDenied
        "only administrators can customize memo timestamps"
  | _ => .ok ()

/-- The variables of the second loop. -/
structure PendingUpdate where
  update : UpdateMemo
  nextMemo : MemoRow
  contentUpdated : Bool := false
  attachmentsUpdated : Bool := false
  relationsUpdated : Bool := false
  pollUpdated : Bool := false
  /-- The calls of `uuid.NewString`. -/
  calls : Nat := 0

/-- Changes the payload of the copy, which the update shares from then on. -/
def PendingUpdate.withPayload (pending : PendingUpdate) (f : MemoPayload → MemoPayload) :
    PendingUpdate :=
  { pending with
    nextMemo := { pending.nextMemo with payload := f pending.nextMemo.payload }
    update := { pending.update with payload := some (f pending.nextMemo.payload) } }

def maxMemoAdminScriptLength : Nat := 100000

def validateMemoAdminScript (script : String) : Except Status Unit :=
  refuseIf (maxMemoAdminScriptLength < script.utf8ByteSize) .InvalidArgument
    ("memo admin script is too long (max " ++ toString maxMemoAdminScriptLength ++ " characters)")

/-- The payload with what is extracted from the content. -/
def ExtractedData.rebuild (data : ExtractedData) (payload : MemoPayload) : MemoPayload :=
  { payload with
    tags := data.tags
    title := data.title
    hasLink := data.hasLink
    hasTaskList := data.hasTaskList
    hasCode := data.hasCode
    hasIncompleteTasks := data.hasIncompleteTasks }

/-- What the path `publish_time` makes of a payload. -/
def schedule (now : Int) (publishTime : Option Timestamp) (payload : MemoPayload) : MemoPayload :=
  match publishTime with
  | none => { payload with publishTs := 0 }
  | some t => { payload with publishTs := t.Unix, draft := decide (now < t.Unix) }

/-- What the path `draft` makes of a payload. -/
def markDraft (draft : Bool) (payload : MemoPayload) : MemoPayload :=
  { payload with draft, publishTs := if draft then payload.publishTs else 0 }

/-- The path `content`. -/
def APIV1Service.updateContent (user : UserRow) (input : ProtoMemo) (pending : PendingUpdate) :
    Except Status PendingUpdate := do
  service.validateMemoLocalScripts input.content (isSuperUser (some user))
  refuseIf (service.contentLengthLimit < input.content.utf8ByteSize) .InvalidArgument
    ("content too long (max " ++ toString service.contentLengthLimit ++ " characters)")
  service.validateTextContent [input.content]
  let data ← refused .Internal
    "failed to rebuild memo payload: failed to extract markdown metadata: "
    (service.extractAll input.content)
  let pending := pending.withPayload data.rebuild
  return { pending with
    nextMemo := { pending.nextMemo with content := input.content }
    update := { pending.update with content := some input.content }
    contentUpdated := true }

/-- The path `poll`. -/
def APIV1Service.updatePoll (input : ProtoMemo) (pending : PendingUpdate) :
    Except Status PendingUpdate := do
  refused .InvalidArgument "" (validatePoll input.poll)
  let (nextPoll, calls) := service.pollToStore pending.calls input.poll
  let pollUpdated := pollVotingRulesChanged pending.nextMemo.payload.poll nextPoll
  return { pending.withPayload (fun payload => { payload with poll := nextPoll }) with
    pollUpdated, calls }

/-- One round of the second loop.  `comment` says that the memo has a parent. -/
def APIV1Service.updatePath (now : Int) (user : UserRow) (comment : Bool) (input : ProtoMemo)
    (pending : PendingUpdate) (path : UpdatePath) : Except Status PendingUpdate :=
  match path with
  | .visibility | .space => .ok pending
  | .content => service.updateContent user input pending
  | .pinned =>
      .ok { pending with update := { pending.update with pinned := some input.pinned } }
  | .state =>
      .ok { pending with
        update := { pending.update with rowStatus := some (convertStateToStore input.state) } }
  | .createTime => do
      let createTime ← orRefuse (input.createTime.filter Timestamp.IsValid) .InvalidArgument
        "create_time is invalid"
      return { pending with
        update := { pending.update with createdTs := some createTime.Unix } }
  | .updateTime =>
      .ok { pending with
        update := { pending.update with
          updatedTs := some ((input.updateTime.map Timestamp.Unix).getD now) } }
  | .displayTime => .error ⟨.InvalidArgument, "display_time is not supported"⟩
  | .location => .ok (pending.withPayload fun payload => { payload with location := input.location })
  | .category => do
      let category ← service.normalizeMemoCategory user (input.category.getD "")
      return pending.withPayload fun payload => { payload with category }
  | .hidden =>
      let pending := pending.withPayload fun payload => { payload with hidden := input.hidden }
      .ok { pending with update := { pending.update with visibility := some .Public } }
  | .hideTime => .ok (pending.withPayload fun payload => { payload with hideTime := input.hideTime })
  | .anonymous => do
      refuseIf comment .InvalidArgument "comments cannot be anonymous"
      return pending.withPayload fun payload => { payload with anonymous := input.anonymous }
  | .adminScript => do
      validateMemoAdminScript input.adminScript
      return pending.withPayload fun payload => { payload with adminScript := input.adminScript }
  | .draft => do
      refuseIf comment .InvalidArgument "comments cannot be drafts"
      return pending.withPayload (markDraft input.draft)
  | .publishTime => do
      refuseIf comment .InvalidArgument "comments cannot be scheduled"
      refuseIf (input.publishTime.any fun t => !t.IsValid) .InvalidArgument
        "publish_time is invalid"
      return pending.withPayload (schedule now input.publishTime)
  | .poll => service.updatePoll input pending
  | .attachments => .ok { pending with attachmentsUpdated := true }
  | .relations => .ok { pending with relationsUpdated := true }
  | .unrecognised path => .error ⟨.InvalidArgument, "invalid update path: " ++ path⟩

def APIV1Service.updatePaths (now : Int) (user : UserRow) (comment : Bool) (input : ProtoMemo)
    (paths : List UpdatePath) (pending : PendingUpdate) : Except Status PendingUpdate :=
  paths.foldlM (service.updatePath now user comment input) pending

/-- What follows the loop: a hidden memo is public, and a draft whose time has come is not
scheduled any more. -/
def PendingUpdate.settle (now : Int) (pending : PendingUpdate) : PendingUpdate :=
  let pending :=
    if pending.nextMemo.payload.hidden then
      { pending with update := { pending.update with visibility := some .Public } }
    else pending
  let payload := pending.nextMemo.payload
  if payload.draft && decide (0 < payload.publishTs) && decide (payload.publishTs ≤ now) then
    pending.withPayload fun payload => { payload with publishTs := 0 }
  else pending

/-! ### The store -/

def mapMemoWriteError (operation : String) : StoreError → Status
  | .MemoMutationConflict =>
      ⟨.FailedPrecondition, "memo state changed: " ++ StoreError.MemoMutationConflict.message⟩
  | .MemoSpaceNotWritable => ⟨.FailedPrecondition, "memo space is no longer writable"⟩
  | .MemoSpaceMembershipRequired => ⟨.PermissionDenied, "permission denied"⟩
  | .MemoPermissionDenied => ⟨.PermissionDenied, "permission denied"⟩
  | .MemoShareConflict =>
      ⟨.FailedPrecondition, "revoke active shares before using the SPACE audience"⟩
  | err => ⟨.Internal, operation ++ ": " ++ err.message⟩

/-- A result of the store as a result of the request. -/
def written {α : Type} (operation : String) : Except StoreError α → Except Status α
  | .ok a => .ok a
  | .error err => .error (mapMemoWriteError operation err)

/-- The bindings for the attachments a request asks for, the last of them first in time. -/
def buildMemoAttachmentMutationBindings (now : Int) (prepared : PreparedMemoAttachments) :
    List MemoAttachmentBinding :=
  (prepared.normalized.reverse.zipIdx.map fun (a, index) =>
    { id := a.id
      uid := a.uid
      updatedTs := now + index
      wasBoundToMemo := prepared.current.any fun current => decide (current.id = a.id) }).insertionSort
    fun a b => a.id ≤ b.id

/-- The mutation for an update, the attachments and the relations of a request. -/
def memoMutation (now : Int) (memo : MemoRow) (prepared : PreparedMemoAttachments)
    (memoUpdate : UpdateMemo) (requiredAttachmentIDs : List Int)
    (referenceRelations : Option (List MemoRelationRow)) : MemoMutation :=
  { importRecord := none
    memoCreate := none
    commentContextMemoID := none
    memoID := memo.id
    memoCreatorID := memo.creatorID
    expectedMemoContent := memo.content
    memoUpdate := some memoUpdate
    bindings := buildMemoAttachmentMutationBindings now prepared
    removedAttachmentIDs := prepared.removed.map AttachmentRow.id
    requiredAttachmentIDs
    replaceReferenceRelations := referenceRelations.isSome
    referenceRelations := (referenceRelations.getD []).map fun relation =>
      { relation with memoID := memo.id }
    policy := memoUpdate.policy }

def APIV1Service.applyMemoMutation (db : Tables) (now : Int) (user : UserRow) (memo : MemoRow)
    (prepared : PreparedMemoAttachments) (memoUpdate : UpdateMemo)
    (requiredAttachmentIDs : List Int) (referenceRelations : Option (List MemoRelationRow)) :
    Except Status Tables := do
  refuseIf (memo.creatorID ≠ user.id && !memoUpdate.policy.any MemoWritePolicy.adminOverride)
    .PermissionDenied "permission denied"
  let policy := memoUpdate.policy.getD (memoWritePolicy user.id false)
  checkIf (!prepared.removed.isEmpty)
    (service.validateAttachmentMotionGroupDeletion db user prepared.removed)
  written "failed to apply memo mutation" (Store.applyMemoMutation service.validUID service.readable
    service.importHash db now (memoMutation now memo prepared
      { memoUpdate with policy := some policy } requiredAttachmentIDs referenceRelations))

def clearPollVotes (db : Tables) (memoID : Int) : Tables :=
  { db with pollVotes := db.pollVotes.delete fun vote => decide (vote.memoID = memoID) }

/-- `ListAttachments` for a memo, the newest first. -/
def listAttachments (db : Tables) (memoID : Int) : List AttachmentRow :=
  (db.attachments.select fun a => decide (a.memoID = some memoID)).insertionSort
    fun a b => b.updatedTs ≤ a.updatedTs

/-! ### The request -/

/-- The review of what the request would publish. -/
def APIV1Service.reviewUpdate (paths : List UpdatePath) (pending : PendingUpdate)
    (attachments : List AttachmentRow) : Except Status Unit := do
  checkIf (!pending.contentUpdated
      && (paths.contains .draft || paths.contains .visibility || paths.contains .publishTime))
    (service.validateTextContent [pending.nextMemo.content])
  checkIf (paths.contains .poll) (pending.nextMemo.payload.poll.elim (.ok ()) fun poll =>
    service.validateTextContent (poll.question :: poll.options.map PollOption.text))
  service.reviewMemoImages pending.nextMemo.content pending.nextMemo.payload.poll attachments

/-- The rest of the request, once the mask is read, up to its last statement. -/
def APIV1Service.commitUpdate (db : Tables) (now authUserID : Int) (user : UserRow)
    (memo : MemoRow) (input : ProtoMemo) (paths : List UpdatePath) (pending : PendingUpdate) :
    Except Status Tables := do
  let preparedAttachments ← (if pending.attachmentsUpdated then
      (service.prepareMemoAttachments db user memo input.attachments).map some
    else .ok none)
  let preparedRelations ← (if pending.relationsUpdated then
      (service.prepareMemoRelations db.toState now authUserID memo [] input.relations).map some
    else .ok none)
  let attachments := (preparedAttachments.map PreparedMemoAttachments.normalized).getD
    (listAttachments db memo.id)
  let requiredAttachmentIDs ← (if pending.contentUpdated || pending.attachmentsUpdated then
      service.resolveMemoAttachmentReferences pending.nextMemo.content attachments
    else .ok [])
  checkIf (pending.contentUpdated || pending.attachmentsUpdated || paths.contains .poll
      || paths.contains .draft || paths.contains .visibility || paths.contains .publishTime)
    (service.reviewUpdate paths pending attachments)
  let db ← (if pending.contentUpdated || pending.attachmentsUpdated || pending.relationsUpdated then
      service.applyMemoMutation db now user memo (preparedAttachments.getD {}) pending.update
        requiredAttachmentIDs preparedRelations
    else
      (written "failed to update memo" (updateMemo service.validUID db.toState now
        pending.update)).map fun state => { db with toState := state })
  return if pending.pollUpdated then clearPollVotes db memo.id else db

/-- `UpdateMemo`, with the database it leaves behind.  What it reports to others afterwards
is left out. -/
def APIV1Service.updateMemo (db : Tables) (now authUserID : Int) (revisionForce : Bool)
    (request : UpdateMemoRequest) : Except Status Tables := do
  let input ← orRefuse request.memo .InvalidArgument "memo is required"
  let memoUID ← refused .InvalidArgument "invalid memo name: "
    (service.ExtractMemoUIDFromName input.name)
  refuseIf request.updateMask.isEmpty .InvalidArgument "update mask is required"
  let memo ← orRefuse (getMemo db.toState memoUID) .NotFound "memo not found"
  let caller ← (fetchCurrentUser db.toState authUserID).mapError fun _ =>
    (⟨.Internal, "failed to get current user"⟩ : Status)
  let user ← orRefuse caller .Unauthenticated "user not authenticated"
  refuseIf (!canManageMemo db.toState user memo) .PermissionDenied "permission denied"
  let update ← service.placeUpdate db.toState user memo input request.updateMask revisionForce
  request.updateMask.forM (checkAdministratorPath user input)
  let pending ← service.updatePaths now user (isComment db memo) input request.updateMask
    { update, nextMemo := memo }
  service.commitUpdate db now authUserID user memo input request.updateMask (pending.settle now)

end Service

end Memos.Api
