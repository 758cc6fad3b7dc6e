/-
Who writes the payload of a memo.

Four parts of the server write it, each as a whole: a request to update the memo, the
moderation that follows a report, the publisher of scheduled drafts, and an administrator
who restores a memo from quarantine.  Each reads the memo, makes a new payload from the
one it has read, and hands it to the store, which puts it in the place of whatever is
there by then.

What is modelled is any number of them, for any memos, between their reading and their
writing.  A writer may stop at any point: the checks of the moderation that refuse a
report are not modelled, nor is what is done besides the payload.
-/
import Memos.Api.MemoUpdate
import Memos.Fileserver.Attachment

namespace Memos.Api

open Store Access Fileserver

/-! ### Writers -/

structure ModerationSecuritySetting where
  articleReportThreshold : Int
  commentReportThreshold : Int

inductive Writer where
  /-- `UpdateMemo`, up to the attachments. -/
  | updating (authUserID : Int) (user : UserRow) (memo : MemoRow) (input : ProtoMemo)
      (paths : List UpdatePath) (pending : PendingUpdate)
  /-- A report, about a comment or an article, that is not counted yet. -/
  | reporting (comment : Bool) (memo : MemoRow) (creator : Option UserRow)
  | quarantining (memo : MemoRow)
  /-- `PublishScheduledMemos`, with the memos that are left of the scan and its time. -/
  | publishing (nowSec : Int) (memos : List MemoRow)
  | restoring (memo : MemoRow)
  | ended

structure System where
  db : Tables
  writers : List Writer

def System.setWriter (s : System) (i : Nat) (writer : Writer) : System :=
  { s with writers := s.writers.set i writer }

/-- `store.UpdateMemo{ID, Payload}`, without a policy. -/
def payloadUpdate (memo : MemoRow) (payload : MemoPayload) : UpdateMemo :=
  { revisionLimit := none, revisionForce := false, id := memo.id, uid := none, createdTs := none,
    updatedTs := none, rowStatus := none, content := none, visibility := none, pinned := none,
    payload := some payload, spaceID := none, clearSpace := false, policy := none }

/-! ### Reading -/

section Service

variable (service : APIV1Service)

/-- `UpdateMemo`, from its first line to where the mask is read, and settled by a later look
at the clock. -/
def APIV1Service.beginUpdate (db : Tables) (now settledAt authUserID : Int)
    (revisionForce : Bool) (request : UpdateMemoRequest) : Except Status Writer := do
  let input ← orRefuse request.memo .InvalidArgument "memo is required"
  let memoUID ← refused .InvalidArgument "invalid memo name: "
    (service.ExtractMemoUIDFromName input.name)
  refuseIf request.updateMask.isEmpty .InvalidArgument "update mask is required"
  let memo ← orRefuse (getMemo db.toState memoUID) .NotFound "memo not found"
  let caller ← (fetchCurrentUser db.toState authUserID).mapError fun _ =>
    (⟨.Internal, "failed to get current user"⟩ : Status)
  let user ← orRefuse caller .Unauthenticated "user not authenticated"
  refuseIf (!canManageMemo db.toState user memo) .PermissionDenied "permission denied"
  let update ← service.placeUpdate db.toState user memo input request.updateMask revisionForce
  request.updateMask.forM (checkAdministratorPath user input)
  let pending ← service.updatePaths now user (isComment db memo) input request.updateMask
    { update, nextMemo := memo }
  return .updating authUserID user memo input request.updateMask (pending.settle settledAt)

/-- `resolveModerationTarget`, for an article or a comment. -/
def APIV1Service.resolveModerationTarget (db : Tables) (comment : Bool) (name : String) :
    Except String (MemoRow × Option UserRow) := do
  let uid ← (service.ExtractMemoUIDFromName (String.ofList (trimSpace name.toList))).mapError
    fun _ => "memo not found"
  match getMemo db.toState uid with
  | none => .error "memo not found"
  | some memo =>
      if isComment db memo ≠ comment then .error "target type does not match content"
      else .ok (memo, getUser db.toState memo.creatorID)

/-- The first half of `applyAutomaticModeration`: enough reports, and not against an
administrator. -/
def reachesThreshold (setting : ModerationSecuritySetting) (comment : Bool)
    (creator : Option UserRow) (count : Int) : Bool :=
  let threshold := if comment then setting.commentReportThreshold else setting.articleReportThreshold
  !(count < threshold || isSuperUser creator)

/-- What the scan for scheduled memos finds, the newest first. -/
def scheduledMemos (db : Tables) (nowSec : Int) : List MemoRow :=
  (db.memos.select fun memo =>
    decide (memo.deletedTs = none) && decide (memo.rowStatus = .Normal) && !isComment db memo
      && memo.payload.draft && decide (0 < memo.payload.publishTs)
      && decide (memo.payload.publishTs ≤ nowSec)).insertionSort
    fun a b => b.createdTs < a.createdTs || (decide (b.createdTs = a.createdTs) && decide (b.id ≤ a.id))

/-- The publisher passes over the other memos of its scan. -/
def isDue (nowSec : Int) (memo : MemoRow) : Bool :=
  !(!memo.payload.draft || memo.payload.publishTs = 0 || nowSec < memo.payload.publishTs
    || memo.payload.quarantined)

def APIV1Service.reviewScheduledPublication (db : Tables) (memo : MemoRow) : Except Status Unit := do
  service.validateTextContent [memo.content]
  memo.payload.poll.elim (.ok ()) fun poll =>
    service.validateTextContent (poll.question :: poll.options.map PollOption.text)
  service.reviewMemoImages memo.content memo.payload.poll (listAttachments db memo.id)

def APIV1Service.passesReview (db : Tables) (memo : MemoRow) : Bool :=
  (service.reviewScheduledPublication db memo).isOk

def APIV1Service.published (db : Tables) (memo : MemoRow) : MemoPayload :=
  if service.passesReview db memo then { memo.payload with draft := false }
  -- A draft that is held is not scheduled any more.
  else { memo.payload with publishTs := 0 }

/-! ### Writing -/

/-- The memo a writer has read, and the update it hands to the store next. -/
def APIV1Service.nextUpdate (db : Tables) : Writer → Option (MemoRow × UpdateMemo)
  | .updating _ _ memo _ _ pending => some (memo, pending.update)
  | .quarantining memo => some (memo, payloadUpdate memo { memo.payload with quarantined := true })
  | .publishing nowSec (memo :: _) =>
      if isDue nowSec memo then some (memo, payloadUpdate memo (service.published db memo)) else none
  | .restoring memo => some (memo, payloadUpdate memo { memo.payload with quarantined := false })
  | _ => none

/-- Where a writer goes on after its update, whether it has succeeded or not. -/
def Writer.next : Writer → Writer
  | .publishing nowSec (_ :: memos) => .publishing nowSec memos
  | _ => .ended

/-- The database after the update of a writer, if it is accepted. -/
def APIV1Service.writePayload (db : Tables) (now : Int) (writer : Writer) : Except Status Tables :=
  match writer with
  | .updating authUserID user memo input paths pending =>
      service.commitUpdate db now authUserID user memo input paths pending
  | _ =>
      match service.nextUpdate db writer with
      | none => .ok db
      | some (_, update) =>
          (written "failed to update memo"
            (Store.updateMemo service.validUID db.toState now update)).map fun state =>
              { db with toState := state }

/-! ### Steps -/

inductive WriterAction where
  | update (now settledAt authUserID : Int) (revisionForce : Bool) (request : UpdateMemoRequest)
  | report (comment : Bool) (name : String)
  | count (i : Nat) (setting : ModerationSecuritySetting) (count : Int)
  | scan (nowSec : Int)
  | askRestore (memoID : Int)
  | write (i : Nat) (now : Int)
  | stop (i : Nat)
  /-- Something else happens that keeps the payloads of the memos there are. -/
  | elsewhere (db : Tables)

/-- The database has no other payload for a memo it had before. -/
def keepsPayloads (db db' : Tables) : Bool :=
  db'.memos.rows.all fun memo =>
    (db.memos.find? memo.id).all fun old => decide (memo.payload = old.payload)

def APIV1Service.stepWriter (s : System) : WriterAction → Option System
  | .update now settledAt authUserID revisionForce request =>
      match service.beginUpdate s.db now settledAt authUserID revisionForce request with
      | .ok writer => some { s with writers := s.writers ++ [writer] }
      | .error _ => some s
  | .report comment name =>
      match service.resolveModerationTarget s.db comment name with
      | .ok (memo, creator) =>
          some { s with writers := s.writers ++ [.reporting comment memo creator] }
      | .error _ => some s
  | .count i setting count =>
      match s.writers[i]? with
      | some (.reporting comment memo creator) =>
          some (s.setWriter i
            (if reachesThreshold setting comment creator count then .quarantining memo else .ended))
      | _ => none
  | .scan nowSec =>
      some { s with writers := s.writers ++ [.publishing nowSec (scheduledMemos s.db nowSec)] }
  | .askRestore memoID =>
      match getMemoByID s.db.toState memoID with
      | some memo => some { s with writers := s.writers ++ [.restoring memo] }
      | none => some s
  | .write i now =>
      match s.writers[i]? with
      | none | some (.reporting _ _ _) | some .ended => none
      | some writer =>
          match service.writePayload s.db now writer with
          | .ok db => some { s.setWriter i writer.next with db }
          | .error _ => some (s.setWriter i writer.next)
  | .stop i => some (s.setWriter i .ended)
  | .elsewhere db => if keepsPayloads s.db db then some { s with db } else none

end Service

end Memos.Api

/-
Rebuilding the payloads of all memos, beside the writers of payloads.

A payload holds what the content of its memo says: the tags, the title, and whether there
are links, code and tasks.  Whoever writes the content extracts them again and writes the
payload with it; whoever writes the payload alone carries over those it has read.

The runner goes over all memos in batches.  It reads a batch, and then rebuilds and writes
one memo of it after the other, while the requests, the moderation and the publisher go on.
-/

namespace Memos.Api.Payloads

open Store Access Fileserver

/-! ### Derived data -/

deriving instance DecidableEq for ExtractedData

def derived (payload : MemoPayload) : ExtractedData :=
  { tags := payload.tags
    title := payload.title
    hasLink := payload.hasLink
    hasTaskList := payload.hasTaskList
    hasCode := payload.hasCode
    hasIncompleteTasks := payload.hasIncompleteTasks }

/-- The payload says what `ExtractAll` computes from the content. -/
def isRebuilt (service : APIV1Service) (content : String) (payload : MemoPayload) : Bool :=
  match service.extractAll content with
  | .ok data => decide (data = derived payload)
  | .error _ => false

/-! ### The runner -/

def RebuildMemoPayload (extractAll : String → Except String ExtractedData) (memo : MemoRow) :
    Except String MemoRow := do
  let data ← (extractAll memo.content).mapError ("failed to extract markdown metadata: " ++ ·)
  return { memo with payload := data.rebuild memo.payload }

def batchSize : Nat := 100

/-- `ListMemos` with nothing but a limit and an offset, the newest first. -/
def listMemos (db : Tables) (limit offset : Nat) : List MemoRow :=
  let memos := (db.memos.select fun memo => decide (memo.deletedTs = none)).insertionSort
    fun a b => b.createdTs < a.createdTs || (decide (b.createdTs = a.createdTs) && decide (b.id ≤ a.id))
  (memos.drop offset).take limit

/-- `RunOnce`: where the next batch begins, and what is left of this one. -/
structure Pass where
  offset : Nat
  memos : List MemoRow

/-- One memo of a batch.  What fails is logged, and the pass goes on. -/
def rebuildStored (service : APIV1Service) (db : Tables) (now : Int) (memo : MemoRow) : Tables :=
  match RebuildMemoPayload service.extractAll memo with
  | .error _ => db
  | .ok memo =>
      match Store.updateMemo service.validUID db.toState now (payloadUpdate memo memo.payload) with
      | .ok state => { db with toState := state }
      | .error _ => db

/-! ### Steps -/

/-- The writers, and the passes of the runner, of which some have ended. -/
structure Server where
  system : System
  passes : List (Option Pass)

inductive Event where
  | act (action : WriterAction)
  | runOnce
  | rebuild (i : Nat) (now : Int)
  | stop (i : Nat)
  /-- Memos are deleted, or created with the payload of their content; whatever else happens keeps
  content and payload of the memos there are. -/
  | elsewhere (db : Tables)

/-- Each memo has the content and the payload it had before, or is new and has been rebuilt. -/
def keepsMemos (service : APIV1Service) (db db' : Tables) : Bool :=
  db'.memos.rows.all fun memo =>
    match db.memos.find? memo.id with
    | some old => decide (memo.content = old.content) && decide (memo.payload = old.payload)
    | none => isRebuilt service memo.content memo.payload

def Server.setPass (s : Server) (i : Nat) (pass : Option Pass) : Server :=
  { s with passes := s.passes.set i pass }

def Server.nextBatch (s : Server) (i offset : Nat) : Server :=
  let batch := listMemos s.system.db batchSize offset
  s.setPass i (if batch.isEmpty then none else some ⟨offset + batch.length, batch⟩)

def step (service : APIV1Service) (s : Server) : Event → Option Server
  | .act (.elsewhere _) => none
  | .act action => (service.stepWriter s.system action).map fun system => { s with system }
  | .runOnce => some { s with passes := s.passes ++ [some ⟨0, []⟩] }
  | .rebuild i now =>
      match s.passes[i]? with
      | some (some ⟨offset, []⟩) => some (s.nextBatch i offset)
      | some (some ⟨offset, memo :: memos⟩) =>
          let db := rebuildStored service s.system.db now memo
          some { s.setPass i (some ⟨offset, memos⟩) with system := { s.system with db } }
      | _ => none
  | .stop i => some (s.setPass i none)
  | .elsewhere db =>
      if keepsMemos service s.system.db db then some { s with system := { s.system with db } }
      else none

end Memos.Api.Payloads
