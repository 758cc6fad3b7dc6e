/-
Importing the articles of a blog.

The worker of a job goes through the articles.  It asks whether an article was imported
before, prepares a memo for one that was not, and hands the memo to the store together with
a record of the import, as one mutation.  Between these steps any other worker may take its
own, of the same job after a retry or of another one, on this node or on another; and a
worker may stop anywhere.

The images of an article are attachments by the time its memo is prepared; what they have
made of the content comes with the step.  Which memos imports have created, and for which
article of whom, is nowhere stored as such; here it is kept with the system, for the
statements about it.
-/
import Memos.Api.MemoCreate

namespace Memos.Api.BlogImport

open Store Access

/-! ### Articles -/

structure ImportArticle where
  id : String
  content : String
  category : String
  created : Int
  updated : Int
  draft : Bool
  isPrivate : Bool
  skipReason : String

structure RunImportRequest where
  selectedIDs : Option (List String)
  visibility : String
  space : String

structure Job where
  id : String
  source : String

/-- Who has imported what: a user, the source, and the id the article has there. -/
abbrev ImportKey : Type := Int × String × String

def isMemoImported (importHash : String → String) (db : Tables) (userID : Int) (source id : String) :
    Bool :=
  db.imports.any fun r =>
    decide (r.userID = userID) && decide (r.sourceHash = importHash source)
      && decide (r.sourceIDHash = importHash id)

/-! ### Permission -/

/-- The Space with the uid, and the role the user has in it. -/
def resolveMemberSpace (service : APIV1Service) (state : State) (name : String) (user : UserRow) :
    Except Status (SpaceRow × SpaceMemberRole) := do
  let uid ← refused .InvalidArgument "invalid space name: " (service.ExtractSpaceUIDFromName name)
  if isSuperUser (some user) then do
    let space ← orRefuse (state.spaces.select fun space => decide (space.uid = uid)).head?
      .NotFound "space not found"
    return (space, .Admin)
  else do
    let space ← orRefuse
      (state.spaces.select fun space =>
        decide (space.uid = uid) && isActiveSpaceMember state space.id user.id).head?
      .NotFound "space not found"
    let member ← orRefuse
      ((getSpaceMember state space.id user.id).filter fun sm => sm.role.isActiveMember)
      .NotFound "space not found"
    return (space, member.role)

def authorizeBlogImport (service : APIV1Service) (state : State) (user : UserRow)
    (spaceName : String) : Except Status Unit :=
  if spaceName = "" then
    refuseIf (!isSuperUser (some user)) .PermissionDenied
      "only instance administrators can import into the main site"
  else do
    let (_, role) ← resolveMemberSpace service state spaceName user
    refuseIf (role ≠ .Admin) .PermissionDenied "space administrator permission required"
    let _ ← service.resolveWritableSpaceByName state spaceName user.id
    return ()

/-! ### The memo of an article -/

def visibilityValue (name : String) : ProtoVisibility :=
  if name = "PRIVATE" then .Private
  else if name = "PROTECTED" then .Protected
  else if name = "PUBLIC" then .Public
  else if name = "SPACE" then .Space
  else .Unspecified

def importMessage (request : RunImportRequest) (entry : ImportArticle) (content : String)
    (attachments : List String) : ProtoMemo :=
  { name := ""
    content
    visibility := if entry.draft || entry.isPrivate then .Private else visibilityValue request.visibility
    draft := entry.draft
    attachments
    space := if request.space ≠ "" then some request.space else none
    category := if entry.category ≠ "" then some entry.category else none }

/-- `importBlogArticle` up to the store, with the content and the attachments that the images of
the article have led to. -/
def prepareImport (service : APIV1Service) (db : Tables) (now : Int) (user : UserRow)
    (request : RunImportRequest) (entry : ImportArticle) (content : String) (attachments : List String)
    (newUID : String) : Except Status PreparedMemoCreate := do
  authorizeBlogImport service db.toState user request.space
  let uid ← service.ValidateAndGenerateUID newUID ""
  let prepared ← service.prepareMemoCreate db now user.id user
    (importMessage request entry content attachments) uid
  return { prepared with
    memo := { prepared.memo with createdTs := entry.created, updatedTs := entry.updated } }

/-- The mutation, whose other fields the store fills in. -/
def importMutation (now : Int) (job : Job) (entry : ImportArticle) (prepared : PreparedMemoCreate) :
    MemoMutation :=
  { importRecord := some
      { source := job.source, sourceID := entry.id, jobID := job.id, createdTs := entry.created,
        updatedTs := entry.updated }
    memoCreate := some prepared.memo
    commentContextMemoID := none
    memoID := 0
    memoCreatorID := 0
    expectedMemoContent := ""
    memoUpdate := none
    bindings := buildMemoAttachmentMutationBindings now prepared.attachments
    removedAttachmentIDs := []
    requiredAttachmentIDs := prepared.requiredAttachmentIDs
    replaceReferenceRelations := !prepared.referenceRelations.isEmpty
    referenceRelations := prepared.referenceRelations
    policy := none }

/-! ### Workers -/

inductive Phase where
  | checking (entries : List ImportArticle)
  | looking (entry : ImportArticle) (rest : List ImportArticle)
  | importing (entry : ImportArticle) (rest : List ImportArticle)
  | applying (entry : ImportArticle) (prepared : PreparedMemoCreate) (rest : List ImportArticle)
  | saving (rest : List ImportArticle)
  | ended

structure Worker where
  job : Job
  user : UserRow
  request : RunImportRequest
  phase : Phase

structure System where
  db : Tables
  workers : List Worker
  /-- The memos that imports have created, each with what it was created for. -/
  created : List (ImportKey × Int)

def System.setPhase (s : System) (i : Nat) (worker : Worker) (phase : Phase) : System :=
  { s with workers := s.workers.set i { worker with phase } }

def newMemos (before after : Tables) : List Int :=
  (after.memos.rows.map MemoRow.id).filter fun id => !(before.memos.rows.map MemoRow.id).contains id

inductive Action where
  | start (job : Job) (user : UserRow) (request : RunImportRequest) (entries : List ImportArticle)
  | check (i : Nat) (cancelled : Bool)
  | look (i : Nat)
  | prepare (i : Nat) (now : Int) (content : String) (attachments : List String) (newUID : String)
  /-- The mutation is applied, unless a statement is interrupted or the commit fails. -/
  | apply (i : Nat) (now : Int) (interrupted : Bool)
  | save (i : Nat)
  /-- A question of the worker, or its report, is not answered. -/
  | fail (i : Nat)
  | crash (i : Nat)
  /-- Something else happens that leaves the records alone, of which no statement but the one
  above writes any. -/
  | elsewhere (db : Tables)

def afterLook (request : RunImportRequest) (duplicate : Bool) (entry : ImportArticle)
    (rest : List ImportArticle) : Phase :=
  let unselected := request.selectedIDs.any fun ids => !ids.contains entry.id
  if unselected || duplicate || decide (entry.skipReason ≠ "") then .saving rest
  else .importing entry rest

/-- The step of a worker.  What it asks whether an article was imported before is a parameter. -/
def step (service : APIV1Service) (imported : Tables → Int → String → String → Bool) (s : System) :
    Action → Option System
  | .start job user request entries =>
      some { s with workers := s.workers ++ [⟨job, user, request, .checking entries⟩] }
  | .check i cancelled =>
      s.workers[i]?.bind fun w => match w.phase with
        | .checking [] => some (s.setPhase i w .ended)
        | .checking (entry :: rest) =>
            some (s.setPhase i w (if cancelled then .ended else .looking entry rest))
        | _ => none
  | .look i =>
      s.workers[i]?.bind fun w => match w.phase with
        | .looking entry rest =>
            some (s.setPhase i w
              (afterLook w.request (imported s.db w.user.id w.job.source entry.id) entry rest))
        | _ => none
  | .prepare i now content attachments newUID =>
      s.workers[i]?.bind fun w => match w.phase with
        | .importing entry rest =>
            match prepareImport service s.db now w.user w.request entry content attachments newUID with
            | .ok prepared => some (s.setPhase i w (.applying entry prepared rest))
            | .error _ => some (s.setPhase i w (.saving rest))
        | _ => none
  | .apply i now interrupted =>
      s.workers[i]?.bind fun w => match w.phase with
        | .applying entry prepared rest =>
            let (db, _) := performMemoMutation service.validUID service.readable service.importHash
              s.db now (importMutation now w.job entry prepared) interrupted
            some { s.setPhase i w (.saving rest) with
              db
              created := s.created ++
                (newMemos s.db db).map fun id => ((w.user.id, w.job.source, entry.id), id) }
        | _ => none
  | .save i =>
      s.workers[i]?.bind fun w => match w.phase with
        | .saving rest => some (s.setPhase i w (.checking rest))
        | _ => none
  | .fail i | .crash i => s.workers[i]?.map fun w => s.setPhase i w .ended
  | .elsewhere db => some { s with db := { db with imports := s.db.imports } }

def beforeImports (db : Tables) : System where
  db := { db with imports := Keyed.Table.empty }
  workers := []
  created := []

end Memos.Api.BlogImport
