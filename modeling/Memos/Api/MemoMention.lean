/-
Telling users that they are mentioned.

Whenever a memo is created, published or changed, the users its content mentions are
looked up, and each of them who was not mentioned before gets a message, unless they wrote
the memo, hear of it anyway, or may not read it.  Whether they may read it is asked of the
read policy alone, not of what the API asks in front of it.

An instance is its database, the setting with the categories, the clock and the messages
that were sent.  Requests and passes of the publisher of scheduled drafts follow each
other, and in between anything may happen to the database and to the setting.  A request
looks at the clock more than once, and has an end of its own, where it asks again whether
the memo is published.  It may fail after it has written, and a message may get lost: which
of its messages an event really creates is part of it.
-/
import Memos.Api.MemoCreate
import Memos.Api.PayloadWriters

namespace Memos.Api.Mentions

open Store Access Fileserver

/-! ### The users a content mentions -/

/-- `extractMentions` is `ExtractAll`, of which the user names are kept. -/
def resolveMentionTargets (extractMentions : String → Except String (List String)) (state : State)
    (content : String) : Except String (List UserRow) :=
  if content = "" then .ok []
  else
    match extractMentions content with
    | .error e => .error ("failed to extract mentions: " ++ e)
    | .ok mentions =>
        -- A query for no user names would list all users.
        if mentions.isEmpty then .ok []
        else .ok (state.users.select fun user =>
          mentions.contains user.username && decide (user.rowStatus = .Normal))

/-! ### Who may read the memo -/

structure MentionContextFacts where
  memo : MemoReadFacts
  related : Option MemoReadFacts

def resolveMentionContextFacts (state : State) (memo : MemoRow) (relatedMemo : Option MemoRow) :
    MentionContextFacts :=
  { memo := ResolveMemoReadFacts state (some memo)
    related := relatedMemo.map fun related => ResolveMemoReadFacts state (some related) }

def canUserAccessMentionContext (state : State) (facts : MentionContextFacts) (target : UserRow) :
    Bool :=
  (CheckMemoReadContext (facts.memo.withViewer state (some target) false none)).allowed
    && facts.related.all fun related =>
      (CheckMemoReadContext (related.withViewer state (some target) false none)).allowed

def shouldSkipMentionInbox (state : State) (facts : MentionContextFacts) (target : UserRow)
    (memo : MemoRow) (relatedMemo : Option MemoRow) : Bool :=
  decide (target.id = memo.creatorID)
    -- A comment is announced to the author of the memo it is about.
    || (relatedMemo.any fun related =>
      decide (target.id = related.creatorID) && decide (memo.creatorID ≠ related.creatorID))
    || !canUserAccessMentionContext state facts target

/-! ### Messages -/

structure Inbox where
  senderID : Int
  receiverID : Int
  memoID : Int
  /-- Zero for a memo that is no comment. -/
  relatedMemoID : Int

/-- The arguments of `dispatchMemoMentionNotifications`, with all it reads. -/
structure Dispatch where
  db : Tables
  memoCategoriesJson : String
  now : Int
  memo : MemoRow
  relatedMemo : Option MemoRow
  previousContent : String

def mentionInbox (memo : MemoRow) (relatedMemo : Option MemoRow) (target : UserRow) : Inbox :=
  { senderID := memo.creatorID
    receiverID := target.id
    memoID := memo.id
    relatedMemoID := relatedMemo.elim 0 MemoRow.id }

/-- The messages of a dispatch.  The source visits the users in the order of a map. -/
def dispatchMemoMentionNotifications (extractMentions : String → Except String (List String))
    (dispatch : Dispatch) : Except String (List Inbox) := do
  let state := dispatch.db.toState
  let currentTargets ← resolveMentionTargets extractMentions state dispatch.memo.content
  if currentTargets.isEmpty then return []
  let previousTargets ← resolveMentionTargets extractMentions state dispatch.previousContent
  let facts := resolveMentionContextFacts state dispatch.memo dispatch.relatedMemo
  return (currentTargets.filter fun target =>
    !(previousTargets.any fun previous => decide (previous.id = target.id))
      && !shouldSkipMentionInbox state facts target dispatch.memo dispatch.relatedMemo).map
        (mentionInbox dispatch.memo dispatch.relatedMemo)

/-! ### Instances -/

/-- What a request that has written goes on with. -/
inductive Ending where
  | created (memo : MemoRow) (relatedMemo : Option MemoRow)
  | updated (previous : MemoRow) (wasUnpublished contentUpdated : Bool)

structure Instance where
  db : Tables
  memoCategoriesJson : String
  clock : Nat
  /-- The request that has written and has not ended. -/
  ending : Option Ending
  /-- Every message, with the dispatch that has created it. -/
  sent : List (Dispatch × Inbox)

inductive Action where
  | createMemo (authUserID publishCooldownSeconds : Int) (newUID : String)
      (request : CreateMemoRequest)
  | createMemoComment (authUserID : Int) (newUID : String) (request : CreateMemoCommentRequest)
  /-- The request settles its update and writes so many seconds after it has read the memo. -/
  | updateMemo (authUserID : Int) (revisionForce : Bool) (request : UpdateMemoRequest) (later : Nat)
  | finish
  | publishScheduledMemos
  | tick (seconds : Nat)
  | elsewhere (db : Tables) (memoCategoriesJson : String)

structure Event where
  action : Action
  /-- Whether the message about a memo to a user is created, if it is asked for. -/
  creates : Int → Int → Bool

section Service

variable (service : APIV1Service) (extractMentions : String → Except String (List String))

def Instance.configured (s : Instance) : APIV1Service :=
  { service with memoCategoriesJson := s.memoCategoriesJson }

def Instance.dispatch (s : Instance) (db : Tables) (memo : MemoRow) (relatedMemo : Option MemoRow)
    (previousContent : String) : Dispatch :=
  { db, memoCategoriesJson := s.memoCategoriesJson, now := s.clock, memo, relatedMemo,
    previousContent }

/-- `UpdateMemo` up to where it has written. -/
def Instance.updateMemo (s : Instance) (authUserID : Int) (revisionForce : Bool)
    (request : UpdateMemoRequest) (later : Nat) : Except Status (Tables × Option Ending) := do
  let writer ← service.beginUpdate s.db s.clock (s.clock + later) authUserID revisionForce request
  let db ← service.writePayload s.db (s.clock + later) writer
  return (db, (service.nextUpdate s.db writer).map fun (memo, _) =>
    .updated memo (memoIsUnpublished memo s.clock) (request.updateMask.contains .content))

/-- The end of a request.  A comment is announced whatever its payload says. -/
def Instance.announcement (s : Instance) : Ending → Option Dispatch
  | .created memo relatedMemo =>
      if relatedMemo.isNone && memoIsUnpublished memo s.clock then none
      else some (s.dispatch s.db memo relatedMemo "")
  | .updated previous wasUnpublished contentUpdated =>
      (getMemoByID s.db.toState previous.id).bind fun memo =>
        let commentContext := (parentUID s.db memo).bind (getMemo s.db.toState)
        if memoIsUnpublished memo s.clock then none
        else if wasUnpublished then some (s.dispatch s.db memo commentContext "")
        else if contentUpdated then some (s.dispatch s.db memo commentContext previous.content)
        else none

/-- One round of `PublishScheduledMemos`, with the database and the dispatches so far. -/
def Instance.publishMemo (s : Instance) (nowSec : Int) (before : Tables × List Dispatch)
    (memo : MemoRow) : Tables × List Dispatch :=
  let (db, dispatches) := before
  if isDue nowSec memo then
    let payload := service.published db memo
    match Store.updateMemo service.validUID db.toState s.clock (payloadUpdate memo payload) with
    | .error _ => before
    | .ok state =>
        let written := { db with toState := state }
        if service.passesReview db memo then
          (written, dispatches ++ [s.dispatch written { memo with payload } none ""])
        else (written, dispatches)
  else before

def Instance.perform (s : Instance) : Action → Instance × List Dispatch
  | .createMemo authUserID publishCooldownSeconds newUID request =>
      match (s.configured service).createMemo s.db s.clock authUserID publishCooldownSeconds newUID
        request with
      | .ok (db, memo) => ({ s with db, ending := memo.map fun memo => .created memo none }, [])
      | .error _ => (s, [])
  | .createMemoComment authUserID newUID request =>
      match (s.configured service).createMemoComment s.db s.clock authUserID newUID request with
      | .ok (db, memo, relatedMemo) =>
          ({ s with db, ending := memo.map fun memo => .created memo (some relatedMemo) }, [])
      | .error _ => (s, [])
  | .updateMemo authUserID revisionForce request later =>
      match s.updateMemo (s.configured service) authUserID revisionForce request later with
      | .ok (db, ending) => ({ s with db, clock := s.clock + later, ending }, [])
      | .error _ => ({ s with clock := s.clock + later }, [])
  | .finish => ({ s with ending := none }, (s.ending.bind s.announcement).toList)
  | .publishScheduledMemos =>
      let (db, dispatches) := (scheduledMemos s.db s.clock).foldl
        (s.publishMemo (s.configured service) s.clock) (s.db, [])
      ({ s with db }, dispatches)
  | .tick seconds => ({ s with clock := s.clock + seconds }, [])
  | .elsewhere db memoCategoriesJson => ({ s with db, memoCategoriesJson }, [])

/-- As long as a request has not ended, only time passes. -/
def Instance.admits (s : Instance) : Action → Bool
  | .tick _ => true
  | .finish => s.ending.isSome
  | _ => s.ending.isNone

def delivered (creates : Int → Int → Bool) (dispatch : Dispatch) : List (Dispatch × Inbox) :=
  (((dispatchMemoMentionNotifications extractMentions dispatch).toOption.getD []).filter
    fun inbox => creates inbox.memoID inbox.receiverID).map fun inbox => (dispatch, inbox)

def step (s : Instance) (event : Event) : Option Instance :=
  if s.admits event.action then
    let (t, dispatches) := s.perform service event.action
    some { t with sent := s.sent ++ dispatches.flatMap (delivered extractMentions event.creates) }
  else none

end Service

end Memos.Api.Mentions
