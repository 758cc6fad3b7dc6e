/-
What a request to change a memo carries, and how its parts are read.

The messages of the API are generated code, and of an enumeration or a timestamp any
value may arrive.  What a handler asks of the parser for Markdown, of the moderation and
of the attachments is a parameter, one function for each question; so are the settings
of the instance and what belongs to the standard library.
-/
import Memos.Api.MemoAccess
import Memos.Store.MemoAttachment

namespace Memos.Api

open Store Access

/-! ### Refusals -/

def refuseIf (condition : Bool) (code : Code) (message : String) : Except Status Unit :=
  if condition then .error ⟨code, message⟩ else .ok ()

def checkIf (condition : Bool) (check : Except Status Unit) : Except Status Unit :=
  if condition then check else .ok ()

def orRefuse {α : Type} (row : Option α) (code : Code) (message : String) : Except Status α :=
  match row with
  | some a => .ok a
  | none => .error ⟨code, message⟩

/-- The error of something the handler asks, as the status of the request. -/
def refused {α : Type} (code : Code) (operation : String) : Except String α → Except Status α
  | .ok a => .ok a
  | .error e => .error ⟨code, operation ++ e⟩

/-! ### Messages -/

structure Timestamp where
  seconds : Int
  nanos : Int

def Timestamp.IsValid (t : Timestamp) : Bool :=
  -62135596800 ≤ t.seconds && t.seconds ≤ 253402300799 && 0 ≤ t.nanos && t.nanos < 1000000000

/-- `AsTime().Unix()`, whose addition wraps around. -/
def Timestamp.Unix (t : Timestamp) : Int := (t.seconds + t.nanos / 1000000000).bmod UInt64.size

def Timestamp.After (t u : Timestamp) : Bool :=
  u.seconds < t.seconds || (decide (u.seconds = t.seconds) && u.nanos < t.nanos)

inductive ProtoState where
  | Unspecified
  | Normal
  | Archived
  | unrecognised
deriving DecidableEq

inductive ProtoVisibility where
  | Unspecified
  | Private
  | Protected
  | Public
  | Space
  | unrecognised
deriving DecidableEq

inductive ProtoVoterType where
  | Unspecified
  | Authenticated
  | Anyone
  | unrecognised
deriving DecidableEq

inductive ProtoRelationType where
  | Reference
  | Comment
  | unrecognised
deriving DecidableEq

structure ProtoPollOption where
  id : String
  text : String
  image : Option String

structure ProtoPoll where
  question : String
  image : Option String
  options : List ProtoPollOption
  allowMultiple : Bool
  maxSelections : Int
  startTime : Option Timestamp
  endTime : Option Timestamp
  voterType : ProtoVoterType
  hideResultsUntilVoted : Bool
  showVotersBeforeVoting : Bool
  showVotersAfterVoting : Bool
  showVoterChoices : Bool

structure ProtoMemoRelation where
  relatedMemo : Option String
  type : ProtoRelationType

/-- Of the message for a memo, what an update reads. -/
structure ProtoMemo where
  name : String
  state : ProtoState := .Unspecified
  createTime : Option Timestamp := none
  updateTime : Option Timestamp := none
  content : String := ""
  visibility : ProtoVisibility := .Unspecified
  pinned : Bool := false
  space : Option String := none
  attachments : List String := []
  relations : List ProtoMemoRelation := []
  location : Option Location := none
  category : Option String := none
  hidden : Bool := false
  draft : Bool := false
  publishTime : Option Timestamp := none
  anonymous : Bool := false
  adminScript : String := ""
  hideTime : Bool := false
  poll : Option ProtoPoll := none

def convertStateToStore : ProtoState → RowStatus
  | .Archived => .Archived
  | _ => .Normal

def validateCreateMemoVisibility : ProtoVisibility → Except Status Visibility
  | .Unspecified | .Private => .ok .Private
  | .Protected => .ok .Protected
  | .Public => .ok .Public
  | .Space => .ok .SpaceAudience
  | .unrecognised => .error ⟨.InvalidArgument, "invalid memo visibility"⟩

def validateUpdateMemoVisibility (visibility : ProtoVisibility) : Except Status Visibility :=
  if visibility = .Unspecified then .error ⟨.InvalidArgument, "visibility must be specified"⟩
  else validateCreateMemoVisibility visibility

/-! ### What the handlers ask -/

structure ExtractedData where
  tags : List String
  title : String
  hasLink : Bool
  hasTaskList : Bool
  hasCode : Bool
  hasIncompleteTasks : Bool

/-- The attachments of a memo before a request, and what the request makes of them. -/
structure PreparedMemoAttachments where
  current : List AttachmentRow := []
  normalized : List AttachmentRow := []
  removed : List AttachmentRow := []

structure APIV1Service where
  library : Library
  quote : String → String
  /-- `uuid.NewString`, called for the first, the second time and so on. -/
  newString : Nat → String
  validUID : String → Bool
  readable : String → Bool
  importHash : String → String
  memoCategoriesJson : String
  contentLengthLimit : Int
  memoRevisionLimit : Option Int
  extractAll : String → Except String ExtractedData
  validateMemoLocalScripts : String → Bool → Except Status Unit
  validateTextContent : List String → Except Status Unit
  /-- The review of the images in a content, a poll and attachments. -/
  reviewMemoImages : String → Option Poll → List AttachmentRow → Except Status Unit
  prepareMemoAttachments :
    Tables → UserRow → MemoRow → List String → Except Status PreparedMemoAttachments
  resolveMemoAttachmentReferences : String → List AttachmentRow → Except Status (List Int)
  validateAttachmentMotionGroupDeletion :
    Tables → UserRow → List AttachmentRow → Except Status Unit

variable (service : APIV1Service)

def APIV1Service.revisionLimit : Int := service.memoRevisionLimit.getD 20

/-! ### Names -/

/-- `GetNameParentTokens` for a name with one token. -/
def APIV1Service.nameToken (name tokenPrefix : String) : Except String String :=
  match (name.toList.splitOn '/').map String.ofList with
  | [collection, token] =>
      if collection ++ "/" ≠ tokenPrefix then
        .error ("invalid prefix " ++ service.quote tokenPrefix ++ " in request "
          ++ service.quote name)
      else if token = "" then
        .error ("invalid request " ++ service.quote name ++ " with empty prefix "
          ++ service.quote tokenPrefix)
      else .ok token
  | _ => .error ("invalid request " ++ service.quote name)

def APIV1Service.ExtractMemoUIDFromName (name : String) : Except String String :=
  service.nameToken name "memos/"

def APIV1Service.ExtractSpaceUIDFromName (name : String) : Except String String :=
  service.nameToken name "spaces/"

def buildMemoName (uid : String) : String := "memos/" ++ uid

/-! ### Spaces -/

/-- The first row of `ListSpaces` for a uid or a slug: the newest Space. -/
def getSpaceByUIDOrURLSlug (state : State) (uid : String) : Option SpaceRow :=
  ((state.spaces.select fun space =>
    decide (space.uid = uid) || decide (space.urlSlug = some uid)).insertionSort
      fun a b => b.id ≤ a.id).head?

def isActiveSpaceMember (state : State) (spaceID userID : Int) : Bool :=
  (getUser state userID).any fun user =>
    decide (user.rowStatus = .Normal)
      && (getSpaceMember state spaceID userID).any fun sm => sm.role.isActiveMember

def APIV1Service.resolveWritableSpaceByName (state : State) (name : String) (userID : Int) :
    Except Status SpaceRow := do
  let spaceUID ← refused .InvalidArgument "invalid space name: "
    (service.ExtractSpaceUIDFromName name)
  let space ← orRefuse (getSpaceByUIDOrURLSlug state spaceUID) .NotFound "space not found"
  let user ← orRefuse (getUser state userID) .NotFound "space not found"
  refuseIf (user.rowStatus ≠ .Normal) .NotFound "space not found"
  refuseIf (!(space.accessMode = .Public || space.accessMode = .Authenticated
    || isActiveSpaceMember state space.id userID)) .NotFound "space not found"
  return space

/-- The creator, the administrators of the instance and those of the memo's Space. -/
def canManageMemo (state : State) (user : UserRow) (memo : MemoRow) : Bool :=
  memo.creatorID = user.id || isSuperUser (some user)
    || memo.spaceID.any fun spaceID =>
      (getSpaceMember state spaceID user.id).any fun sm => decide (sm.role = .Admin)

/-! ### Categories -/

def APIV1Service.normalizeMemoCategory (user : UserRow) (category : String) :
    Except Status String := do
  let category := String.ofList (trimSpace category.toList)
  if category = "" then return ""
  let categories ← refused .Internal "failed to parse memo categories: "
    (parseInstanceMemoCategories service.library service.memoCategoriesJson)
  let item ← orRefuse (categories.find? fun item => decide (item.slug = category))
    .InvalidArgument ("unknown memo category " ++ service.quote category)
  refuseIf (!memoCategoryAllowsUser service.library item (some user)) .PermissionDenied
    "memo category is not available"
  return category

/-! ### Polls -/

def validatePollOptions : List String → List ProtoPollOption → Except String Unit
  | _, [] => .ok ()
  | seen, option :: rest =>
      if option.text = "" then .error "poll option text is required"
      else if option.id = "" then validatePollOptions seen rest
      else if seen.contains option.id then .error "poll option IDs must be unique"
      else validatePollOptions (option.id :: seen) rest

def validatePollSelections (input : ProtoPoll) : Except String Unit :=
  if !input.allowMultiple then
    if input.maxSelections ≠ 0 && input.maxSelections ≠ 1 then
      .error "single-choice polls must use one selection"
    else .ok ()
  else if input.maxSelections < 2 || input.options.length < input.maxSelections then
    .error ("poll maximum selections must be between 2 and " ++ toString input.options.length)
  else .ok ()

def validatePollTimes (input : ProtoPoll) : Except String Unit :=
  if input.startTime.any fun t => !t.IsValid then .error "poll start time is invalid"
  else if input.endTime.any fun t => !t.IsValid then .error "poll end time is invalid"
  else if input.startTime.any fun start => input.endTime.any fun finish => !finish.After start then
    .error "poll end time must be after start time"
  else .ok ()

def validatePoll : Option ProtoPoll → Except String Unit
  | none => .ok ()
  | some input =>
      if input.question = "" then .error "poll question is required"
      else if input.options.length < 2 then .error "poll requires at least two options"
      else do
        validatePollOptions [] input.options
        validatePollSelections input
        validatePollTimes input
        if input.voterType = .unrecognised then .error "invalid poll voter type" else .ok ()

def pollVoterTypeToStore : ProtoVoterType → String
  | .Anyone => "ANYONE"
  | _ => "AUTHENTICATED"

/-- The loop over the options: an option without an id gets one.  The number is that of the
calls of `uuid.NewString` so far. -/
def APIV1Service.pollOptionsToStore : Nat → List ProtoPollOption → List PollOption × Nat
  | calls, [] => ([], calls)
  | calls, option :: rest =>
      let (id, calls) :=
        if option.id = "" then (service.newString calls, calls + 1) else (option.id, calls)
      let (options, calls) := pollOptionsToStore calls rest
      ({ id, text := option.text, imageName := option.image.getD "" } :: options, calls)

def APIV1Service.pollToStore (calls : Nat) : Option ProtoPoll → Option Poll × Nat
  | none => (none, calls)
  | some input =>
      let (options, calls) := service.pollOptionsToStore calls input.options
      (some {
        question := input.question
        imageName := input.image.getD ""
        options
        allowMultiple := input.allowMultiple
        startTs := (input.startTime.map Timestamp.Unix).getD 0
        endTs := (input.endTime.map Timestamp.Unix).getD 0
        maxSelections := if !input.allowMultiple then 1 else input.maxSelections
        voterType := pollVoterTypeToStore input.voterType
        hideResultsUntilVoted := input.hideResultsUntilVoted
        showVotersBeforeVoting := input.showVotersBeforeVoting && input.voterType ≠ .Anyone
        showVotersAfterVoting := input.showVotersAfterVoting && input.voterType ≠ .Anyone
        showVoterChoices := input.showVoterChoices && input.voterType ≠ .Anyone }, calls)

/-- A poll without what only concerns who sees its results. -/
def Poll.votingRules (poll : Poll) : Poll :=
  { poll with
    hideResultsUntilVoted := false, showVotersBeforeVoting := false,
    showVotersAfterVoting := false, showVoterChoices := false }

/-- Edits of the visibility of the results alone keep the ballots. -/
def pollVotingRulesChanged (previous next : Option Poll) : Bool :=
  previous.map Poll.votingRules ≠ next.map Poll.votingRules

/-! ### Relations -/

/-- The loop over the relations of a request, with the memos that were seen. -/
def APIV1Service.prepareMemoRelations (state : State) (now authUserID : Int) (memo : MemoRow) :
    List Int → List ProtoMemoRelation → Except Status (List MemoRelationRow)
  | _, [] => .ok []
  | seen, relation :: rest => do
      let name ← orRefuse relation.relatedMemo .InvalidArgument "related memo is required"
      refuseIf (relation.type = .Comment) .InvalidArgument "COMMENT relations are output only"
      refuseIf (relation.type ≠ .Reference) .InvalidArgument "relation type must be REFERENCE"
      -- A relation of the memo to itself is ignored.
      if buildMemoName memo.uid = name then
        prepareMemoRelations state now authUserID memo seen rest
      else do
        let uid ← refused .InvalidArgument "invalid related memo name: "
          (service.ExtractMemoUIDFromName name)
        let relatedMemo ← orRefuse (getMemo state uid) .NotFound "related memo not found"
        checkMemoReadAccess service.library state service.memoCategoriesJson now authUserID
          (some relatedMemo)
        if seen.contains relatedMemo.id then
          prepareMemoRelations state now authUserID memo seen rest
        else do
          let prepared ←
            prepareMemoRelations state now authUserID memo (relatedMemo.id :: seen) rest
          return { memoID := memo.id, relatedMemoID := relatedMemo.id, type := .Reference }
            :: prepared

end Memos.Api
