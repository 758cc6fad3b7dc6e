/-
The message for a memo.

Every reader of a memo gets it as a message that is put together for them: with or
without the creator and the Space, with the poll as they may see it, with the reactions,
relations and attachments.  Whether they may read the memo at all was decided before.

The users behind a memo and its reactions are loaded at once in the source and looked up
one by one here.  The snippet is the parser's; which voters of a poll are shown is drawn
at random, by the database and then by the server.
-/
import Memos.Api.MemoRelations

namespace Memos.Api

open Store Access

/-! ### Messages -/

structure ReactionMessage where
  name : String
  creator : String
  /-- Times are in seconds. -/
  createTime : Int
  reactionType : String

structure AttachmentMessage where
  name : String
  createTime : Int
  filename : String
  type : String
  size : Int
  /-- What the payload says about the media. -/
  media : String
  memo : Option String
  externalLink : String

structure PollVoterMessage where
  name : String
  username : String
  displayName : String
  avatarURL : String
  selectedOptionIDs : List String

structure PollOptionMessage where
  id : String
  text : String
  voteCount : Nat
  image : Option AttachmentMessage

structure PollMessage where
  question : String
  image : Option AttachmentMessage
  options : List PollOptionMessage
  allowMultiple : Bool
  maxSelections : Int
  startTime : Option Int
  endTime : Option Int
  voterType : ProtoVoterType
  hideResultsUntilVoted : Bool
  showVotersBeforeVoting : Bool
  showVotersAfterVoting : Bool
  showVoterChoices : Bool
  selectedOptionIDs : List String
  resultsHidden : Bool
  totalVotes : Nat
  votersVisible : Bool
  hasMoreVoters : Bool
  voters : List PollVoterMessage

structure MemoMessage where
  name : String
  state : ProtoState
  creator : String
  createTime : Int
  updateTime : Int
  content : String
  visibility : ProtoVisibility
  pinned : Bool
  creatorIsViewer : Bool
  space : Option String
  tags : List String
  title : String
  hasLink : Bool
  hasTaskList : Bool
  hasCode : Bool
  hasIncompleteTasks : Bool
  location : Option Location
  category : Option String
  hidden : Bool
  hideTime : Bool
  anonymous : Bool
  adminScript : String
  draft : Bool
  quarantined : Bool
  publishTime : Option Int
  poll : Option PollMessage
  parent : Option String
  reactions : List ReactionMessage
  relations : List MemoRelationMessage
  attachments : List AttachmentMessage
  snippet : String

/-! ### What belongs to others -/

/-- A participant of a poll with their choices. -/
structure PollVoter where
  userID : Int
  optionIDs : List String

structure Conversion where
  getMemoContentSnippet : String → Except String String
  /-- `SamplePollVoters` of the votes for a memo, at most eleven, and the shuffle. -/
  samplePollVoters : List PollVoteRow → List PollVoter

/-! ### Reactions and attachments -/

def BuildUserName (username : String) : String := "users/" ++ username

def buildSpaceName (uid : String) : String := "spaces/" ++ uid

def convertStateFromStore : RowStatus → ProtoState
  | .Normal => .Normal
  | .Archived => .Archived
  | .unrecognised => .Unspecified

def convertVisibilityFromStore : Visibility → ProtoVisibility
  | .Private => .Private
  | .Protected => .Protected
  | .Public => .Public
  | .SpaceAudience => .Space
  | .unrecognised => .Unspecified

/-- The memo is there and deleted. -/
def memoDeleted (state : State) (id : Int) : Bool :=
  state.memos.any fun memo => decide (memo.id = id) && memo.deletedTs.isSome

def ListReactions (db : Tables) (memoIDs : List Int) : List ReactionRow :=
  (db.reactions.select fun reaction =>
    !memoDeleted db.toState reaction.memoID
      && memoIDs.contains reaction.memoID).insertionSort fun r s => r.id ≤ s.id

def ListAttachments (db : Tables) (memoIDs : List Int) : List AttachmentRow :=
  (db.attachments.select fun attachment =>
    attachment.memoID.any fun memoID =>
      !memoDeleted db.toState memoID && memoIDs.contains memoID).insertionSort
        fun a b => b.updatedTs ≤ a.updatedTs

/-- A reaction whose creator is gone is left out. -/
def convertReaction (state : State) (memoName : String) (reaction : ReactionRow) :
    Option ReactionMessage :=
  (getUser state reaction.creatorID).map fun creator =>
    { name := memoName ++ "/reactions/" ++ toString reaction.id
      creator := BuildUserName creator.username
      createTime := reaction.createdTs
      reactionType := reaction.reactionType }

/-- An attachment, with the memo it is joined to. -/
def convertAttachmentFromStore (state : State) (attachment : AttachmentRow) : AttachmentMessage :=
  { name := "attachments/" ++ attachment.uid
    createTime := attachment.createdTs
    filename := attachment.filename
    type := attachment.type
    size := attachment.size
    media := attachment.payload
    memo := ((attachment.memoID.bind state.memos.find?).filter fun memo => memo.uid ≠ "").map
      fun memo => buildMemoName memo.uid
    externalLink := if attachment.storageType = .External then attachment.reference else "" }

/-! ### The poll -/

/-- The votes of one voter: a user, or else a device. -/
def ListPollVotesByVoter (db : Tables) (memoID userID : Int) (deviceID : String) :
    List PollVoteRow :=
  if userID ≤ 0 && deviceID = "" then []
  else
    (db.pollVotes.select fun vote =>
      decide (vote.memoID = memoID) && decide (vote.userID = userID)
        && decide (vote.deviceID = deviceID)).insertionSort fun v w => v.id ≤ w.id

def pollVoterTypeFromStore (value : String) : ProtoVoterType :=
  if value = "ANYONE" then .Anyone else .Authenticated

/-- A voter who is shown, if the user is still there. -/
def convertPollVoter (state : State) (showChoices : Bool) (participant : PollVoter) :
    Option PollVoterMessage :=
  (getUser state participant.userID).map fun user =>
    { name := BuildUserName user.username
      username := user.username
      displayName := user.nickname
      avatarURL := user.avatarURL
      selectedOptionIDs := if showChoices then participant.optionIDs else [] }

def convertPoll (conversion : Conversion) (db : Tables) (memo : MemoRow)
    (attachments : List AttachmentRow) (viewer : Option UserRow) (deviceID : String) :
    Except String (Option PollMessage) :=
  match memo.payload.poll with
  | none => .ok none
  | some stored =>
      -- Of attachments with one name the last is taken.
      let image (name : String) : Option AttachmentMessage :=
        if name = "" then none
        else (attachments.reverse.find? fun attachment =>
          "attachments/" ++ attachment.uid = name).map (convertAttachmentFromStore db.toState)
      let userID := viewer.elim 0 UserRow.id
      let deviceID := if viewer.isSome then "" else deviceID
      if memo.id ≤ 0 then .error "failed to list poll votes: memo id is required"
      else
        let votes := db.pollVotes.select fun vote => decide (vote.memoID = memo.id)
        let selected := (ListPollVotesByVoter db memo.id userID deviceID).map PollVoteRow.optionID
        let hasVoted := !selected.isEmpty
        let resultsHidden := stored.hideResultsUntilVoted && !hasVoted
        let votersVisible := stored.voterType ≠ "ANYONE"
          && ((!hasVoted && stored.showVotersBeforeVoting)
            || (hasVoted && stored.showVotersAfterVoting))
        let participants := if votersVisible then conversion.samplePollVoters votes else []
        .ok (some
          { question := stored.question
            image := image stored.imageName
            options := stored.options.map fun option =>
              { id := option.id
                text := option.text
                voteCount := if resultsHidden then 0
                  else votes.countP fun vote => decide (vote.optionID = option.id)
                image := image option.imageName }
            allowMultiple := stored.allowMultiple
            maxSelections := if stored.maxSelections = 0 then
                if stored.allowMultiple then stored.options.length else 1
              else stored.maxSelections
            startTime := if 0 < stored.startTs then some stored.startTs else none
            endTime := if 0 < stored.endTs then some stored.endTs else none
            voterType := pollVoterTypeFromStore stored.voterType
            hideResultsUntilVoted := stored.hideResultsUntilVoted
            showVotersBeforeVoting := stored.showVotersBeforeVoting
            showVotersAfterVoting := stored.showVotersAfterVoting
            showVoterChoices := stored.showVoterChoices
            selectedOptionIDs := selected
            resultsHidden
            totalVotes := if resultsHidden then 0 else votes.length
            votersVisible
            hasMoreVoters := 10 < participants.length
            voters := (participants.take 10).filterMap
              (convertPollVoter db.toState stored.showVoterChoices) })

/-! ### The memo -/

/-- Why a memo has no message. -/
inductive ConvertError where
  | memoCreatorNotFound
  | other (message : String)

/-- The Space is shown to the author and to its members. -/
def projectMemoCollaborationContext (state : State) (memo : MemoRow)
    (readContext : MemoReadContext) : Except String (Option String) :=
  match memo.spaceID with
  | none => .ok none
  | some spaceID =>
      if !readContext.spaceValid then
        if memo.visibility = .SpaceAudience then .error "memo has invalid space placement"
        else .ok none
      else
        match readContext.viewer with
        | none => .ok none
        | some viewer =>
            if viewer.id ≠ memo.creatorID && !readContext.viewerSpaceMember then .ok none
            else
              match getSpace state spaceID with
              | some space => .ok (some (buildSpaceName space.uid))
              | none =>
                  if memo.visibility = .SpaceAudience then .error "memo has invalid space placement"
                  else .ok none

/-- The memo a comment belongs to, if the caller may read it. -/
def readableParent (service : APIV1Service) (db : Tables) (now authUserID : Int)
    (memo : MemoRow) : Option String :=
  (parentUID db memo).bind fun uid =>
    match getMemo db.toState uid with
    | none => none
    | some contextMemo =>
        match checkMemoReadAccess service.library db.toState service.memoCategoriesJson now
          authUserID (some contextMemo) with
        | .ok _ => some (buildMemoName uid)
        | .error _ => none

def convertMemoFromStore (service : APIV1Service) (conversion : Conversion) (db : Tables)
    (now authUserID : Int) (memo : MemoRow) (reactions : List ReactionRow)
    (attachments : List AttachmentRow) (relations : List MemoRelationMessage) :
    Except ConvertError MemoMessage :=
  match getUser db.toState memo.creatorID with
  | none => .error .memoCreatorNotFound
  | some creator => do
      let wrap {α : Type} (message : String) (result : Except String α) : Except ConvertError α :=
        result.mapError fun e => .other (message ++ e)
      let viewer ← wrap "failed to resolve memo viewer: " (fetchCurrentUser db.toState authUserID)
      let readContext := ResolveMemoReadContext db.toState (some memo) viewer
        (allowAnonymous db.toState viewer) none
      let space ← wrap "failed to project memo collaboration context: "
        (projectMemoCollaborationContext db.toState memo readContext)
      let poll ← wrap "failed to convert poll: "
        (convertPoll conversion db memo attachments viewer "")
      let snippet ← wrap "failed to get memo content snippet: "
        (conversion.getMemoContentSnippet memo.content)
      let payload := memo.payload
      return {
        name := buildMemoName memo.uid
        state := convertStateFromStore memo.rowStatus
        creator := if payload.anonymous && !isSuperUser viewer then ""
          else BuildUserName creator.username
        createTime := memo.createdTs
        updateTime := memo.updatedTs
        content := memo.content
        visibility := convertVisibilityFromStore memo.visibility
        pinned := memo.pinned
        creatorIsViewer := viewer.any fun viewer => decide (viewer.id = memo.creatorID)
        space
        tags := payload.tags
        title := payload.title
        hasLink := payload.hasLink
        hasTaskList := payload.hasTaskList
        hasCode := payload.hasCode
        hasIncompleteTasks := payload.hasIncompleteTasks
        location := payload.location
        category := if payload.category ≠ "" then some payload.category else none
        hidden := payload.hidden
        hideTime := payload.hideTime
        anonymous := payload.anonymous
        adminScript := payload.adminScript
        draft := memoIsUnpublished memo now
        quarantined := payload.quarantined
        publishTime := if 0 < payload.publishTs then some payload.publishTs else none
        poll
        parent := readableParent service db now authUserID memo
        reactions := reactions.filterMap (convertReaction db.toState (buildMemoName memo.uid))
        relations
        attachments := attachments.map (convertAttachmentFromStore db.toState)
        snippet }

end Memos.Api
