/-
Voting in the poll of a memo, beside the requests that edit the memo.

The poll is part of the memo's payload and the votes are rows of a table.  A request that
votes reads the memo, checks itself against the poll it has read, looks for votes of the
same voter and writes its own, and a request that changes the poll writes the memo and then
clears the votes.  Each of these is a step of its own, and a request may fail at each.
-/
import Memos.Api.MemoMessage
import Memos.Api.PayloadWriters

namespace Memos.Api.Polls

open Store Access Fileserver

/-! ### Requests -/

structure VoteMemoRequest where
  name : String
  deviceID : String
  optionIDs : List String

/-- A user, or else a guest with a device. -/
structure Voter where
  userID : Int
  deviceID : String
deriving DecidableEq

structure Vote where
  memoID : Int
  poll : Poll
  voter : Voter
  optionIDs : List String

def identifyVoter (viewer : Option UserRow) (deviceID : String) : Except Status Voter :=
  match viewer with
  | some viewer => .ok ⟨viewer.id, ""⟩
  | none =>
      let deviceID := String.ofList (trimSpace deviceID.toList)
      if deviceID.utf8ByteSize < 16 || 128 < deviceID.utf8ByteSize then
        .error ⟨.InvalidArgument, "a valid device ID is required for guest voting"⟩
      else .ok ⟨0, deviceID⟩

/-! ### Options -/

def checkOptionIDs (validOptions : List String) : List String → List String → Except Status Unit
  | _, [] => .ok ()
  | seen, optionID :: rest =>
      if !validOptions.contains optionID then .error ⟨.InvalidArgument, "poll option does not exist"⟩
      else if seen.contains optionID then .error ⟨.InvalidArgument, "poll options must be unique"⟩
      else checkOptionIDs validOptions (optionID :: seen) rest

def maxSelections (poll : Poll) : Int :=
  if poll.maxSelections = 0 then if poll.allowMultiple then poll.options.length else 1
  else poll.maxSelections

def checkOptions (poll : Poll) (optionIDs : List String) : Except Status Unit := do
  refuseIf optionIDs.isEmpty .InvalidArgument "at least one poll option is required"
  checkOptionIDs (poll.options.map PollOption.id) [] optionIDs
  refuseIf (!poll.allowMultiple && optionIDs.length ≠ 1) .InvalidArgument
    "single-choice polls accept one option"
  refuseIf (maxSelections poll < optionIDs.length) .InvalidArgument
    ("you can select at most " ++ toString (maxSelections poll) ++ " options")

/-! ### Voting -/

section Service

variable (service : APIV1Service)

def readMemo (db : Tables) (request : VoteMemoRequest) : Except Status MemoRow := do
  let memoUID ← refused .InvalidArgument "invalid memo name: "
    (service.ExtractMemoUIDFromName request.name)
  orRefuse (getMemo db.toState memoUID) .NotFound "memo not found"

/-- `VoteMemo`, from where it has read the memo to where it looks for an earlier vote. -/
def checkVote (db : Tables) (now authUserID : Int) (request : VoteMemoRequest) (memo : MemoRow) :
    Except Status Vote := do
  checkMemoReadAccess service.library db.toState service.memoCategoriesJson now authUserID (some memo)
  let poll ← orRefuse memo.payload.poll .NotFound "poll not found"
  let viewer ← (fetchCurrentUser db.toState authUserID).mapError fun _ =>
    (⟨.Internal, "failed to get current user"⟩ : Status)
  refuseIf (poll.voterType ≠ "ANYONE" && viewer.isNone) .Unauthenticated "user not authenticated"
  let voter ← identifyVoter viewer request.deviceID
  refuseIf (0 < poll.startTs && now < poll.startTs) .FailedPrecondition "poll has not started"
  refuseIf (0 < poll.endTs && poll.endTs ≤ now) .FailedPrecondition "poll has ended"
  checkOptions poll request.optionIDs
  return { memoID := memo.id, poll, voter, optionIDs := request.optionIDs }

/-- The check for an earlier vote: all votes that are listed are the voter's. -/
def checkUnvoted (db : Tables) (vote : Vote) : Except Status Unit := do
  refuseIf (vote.memoID ≤ 0) .Internal "failed to check existing poll vote: memo id is required"
  refuseIf (!(ListPollVotesByVoter db vote.memoID vote.voter.userID vote.voter.deviceID).isEmpty)
    .FailedPrecondition "you have already voted in this poll"

def ofVoter (memoID : Int) (voter : Voter) (row : PollVoteRow) : Bool :=
  decide (row.memoID = memoID) && decide (row.userID = voter.userID)
    && decide (row.deviceID = voter.deviceID)

def insertPollVote (now : Int) (vote : Vote) (votes : Keyed.Table PollVoteRow.schema)
    (optionID : String) : Except StoreError (Keyed.Table PollVoteRow.schema) :=
  constrained (.Constraint .unique) (votes.insert
    { id := nextID 0 (votes.rows.map PollVoteRow.id)
      memoID := vote.memoID
      userID := vote.voter.userID
      optionID
      deviceID := vote.voter.deviceID
      createdTs := now })

/-- One transaction: the voter's ballot is deleted, and the new one inserted. -/
def ReplacePollVotes (db : Tables) (now : Int) (vote : Vote) : Except StoreError Tables := do
  require (0 < vote.memoID && 0 ≤ vote.voter.userID)
    (.Invalid "poll vote replacement requires memo and voter")
  require (!(decide (vote.voter.userID = 0) && decide (vote.voter.deviceID = "")))
    (.Invalid "guest poll vote requires device")
  require (!vote.optionIDs.isEmpty) (.Invalid "invalid poll choices")
  let pollVotes ← vote.optionIDs.foldlM (insertPollVote now vote)
    (db.pollVotes.delete (ofVoter vote.memoID vote.voter))
  return { db with pollVotes }

/-! ### Steps -/

inductive Handler where
  /-- `VoteMemo` has read the memo. -/
  | voting (authUserID : Int) (request : VoteMemoRequest) (memo : MemoRow)
  | checked (vote : Vote)
  | unvoted (vote : Vote)
  /-- `UpdateMemo` has read the memo and the mask. -/
  | updating (authUserID : Int) (user : UserRow) (memo : MemoRow) (input : ProtoMemo)
      (paths : List UpdatePath) (pending : PendingUpdate)
  | clearing (memoID : Int)
  | ended

structure Server where
  db : Tables
  handlers : List Handler

inductive Event where
  | vote (authUserID : Int) (request : VoteMemoRequest)
  | update (now settledAt authUserID : Int) (revisionForce : Bool) (request : UpdateMemoRequest)
  | next (i : Nat) (now : Int)
  | fail (i : Nat)

def Server.start (s : Server) (handler : Handler) : Server :=
  { s with handlers := s.handlers ++ [handler] }

def Server.set (s : Server) (i : Nat) (handler : Handler) : Server :=
  { s with handlers := s.handlers.set i handler }

def writeUpdate (db : Tables) (now authUserID : Int) (user : UserRow) (memo : MemoRow)
    (input : ProtoMemo) (paths : List UpdatePath) (pending : PendingUpdate) : Except Status Tables :=
  service.commitUpdate db now authUserID user memo input paths { pending with pollUpdated := false }

/-- What a request does next, and to where; a step that is refused ends it. -/
def goOn (db : Tables) (now : Int) : Handler → Tables × Handler
  | .voting authUserID request memo =>
      match checkVote service db now authUserID request memo with
      | .ok vote => (db, .checked vote)
      | .error _ => (db, .ended)
  | .checked vote =>
      match checkUnvoted db vote with
      | .ok _ => (db, .unvoted vote)
      | .error _ => (db, .ended)
  | .unvoted vote =>
      match ReplacePollVotes db now vote with
      | .ok db => (db, .ended)
      | .error _ => (db, .ended)
  | .updating authUserID user memo input paths pending =>
      match writeUpdate service db now authUserID user memo input paths pending with
      | .ok db => (db, if pending.pollUpdated then .clearing memo.id else .ended)
      | .error _ => (db, .ended)
  | .clearing memoID => (clearPollVotes db memoID, .ended)
  | .ended => (db, .ended)

def step (s : Server) : Event → Option Server
  | .vote authUserID request =>
      match readMemo service s.db request with
      | .ok memo => some (s.start (.voting authUserID request memo))
      | .error _ => some s
  | .update now settledAt authUserID revisionForce request =>
      match service.beginUpdate s.db now settledAt authUserID revisionForce request with
      | .ok (.updating authUserID user memo input paths pending) =>
          some (s.start (.updating authUserID user memo input paths pending))
      | _ => some s
  | .next i now =>
      match s.handlers[i]? with
      | none => none
      | some handler =>
          let (db, handler) := goOn service s.db now handler
          some { s.set i handler with db }
  | .fail i => some (s.set i .ended)

end Service

end Memos.Api.Polls
