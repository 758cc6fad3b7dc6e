/-
Updating a memo under a write policy, on the SQLite driver.

A policy names the actor and the kind of mutation.  The driver loads a snapshot of what
the policy depends on, lets `ValidateMemoWriteSnapshot` decide, and writes the update in
the same transaction.  The validator does not see the row that will be written: it works
out from the snapshot and the update where the memo will be placed and who will be its
audience, and the writer builds its `SET` list from the update alone.
-/
import Memos.Store.Tables

namespace Memos.Store

/-! ### Policies, updates and snapshots -/

structure MemoWritePolicy where
  actorUserID : Int
  /-- Permits an instance administrator, or an administrator of the memo's Space, to
  mutate the memo of another user. -/
  adminOverride : Bool
  /-- Permits an author who is no longer a member to move or withdraw the memo. -/
  lifecycleOnly : Bool
  creatingShare : Bool

structure UpdateMemo where
  revisionLimit : Option Int
  revisionForce : Bool
  id : Int
  uid : Option String
  createdTs : Option Int
  updatedTs : Option Int
  rowStatus : Option RowStatus
  content : Option String
  visibility : Option Visibility
  pinned : Option Bool
  payload : Option MemoPayload
  spaceID : Option Int
  clearSpace : Bool
  policy : Option MemoWritePolicy

structure MemoWriteSnapshot where
  creatorID : Int
  actorInstanceAdmin : Bool
  rowStatus : RowStatus
  spaceID : Option Int
  visibility : Visibility
  sourceSpaceExists : Bool
  sourceSpaceAccessMode : Option SpaceAccessMode
  sourceMemberActive : Bool
  sourceMemberAdmin : Bool
  targetSpaceExists : Bool
  targetSpaceAccessMode : Option SpaceAccessMode
  targetMemberActive : Bool
  hasActiveShare : Bool

/-! ### The validator -/

def validateMemoWritePolicy (policy : MemoWritePolicy) : Except StoreError Unit := do
  require (0 < policy.actorUserID) (.Invalid "memo write policy requires actor")
  require (!(policy.lifecycleOnly && policy.creatingShare))
    (.Invalid "memo write policy has conflicting actions")

/-- Open Spaces accept any active user, invite-only Spaces their members. -/
def SpaceWriteAllowed (accessMode : Option SpaceAccessMode) (memberActive : Bool) : Bool :=
  memberActive || accessMode = some .Public || accessMode = some .Authenticated

def isLifecycleOnlyMemoUpdate (update : Option UpdateMemo) : Bool :=
  update.any fun update =>
    (update.clearSpace || update.spaceID.isSome) && !(update.clearSpace && update.spaceID.isSome)
      && update.uid.isNone && update.createdTs.isNone && update.updatedTs.isNone
      && update.rowStatus.isNone && update.content.isNone && update.pinned.isNone
      && update.payload.isNone

/-- Where the validator takes the memo to be placed after the update. -/
def resultSpaceID (update : Option UpdateMemo) (current : Option Int) : Option Int :=
  match update with
  | none => current
  | some update =>
      if update.spaceID.isSome then update.spaceID
      else if update.clearSpace then none
      else current

/-- Who the validator takes to be the audience after the update. -/
def resultVisibility (update : Option UpdateMemo) (current : Visibility) : Visibility :=
  (update.bind UpdateMemo.visibility).getD current

def ValidateMemoWriteSnapshot (policy : MemoWritePolicy) (update : Option UpdateMemo)
    (snapshot : MemoWriteSnapshot) : Except StoreError Unit := do
  validateMemoWritePolicy policy
  let adminOverride :=
    policy.adminOverride && (snapshot.actorInstanceAdmin || snapshot.sourceMemberAdmin)
  require (snapshot.creatorID = policy.actorUserID || adminOverride) .MemoPermissionDenied
  require (snapshot.rowStatus = .Normal || snapshot.rowStatus = .Archived) .MemoMutationConflict
  require (!(policy.creatingShare && snapshot.rowStatus ≠ .Normal)) .MemoMutationConflict
  require (isValidVisibility snapshot.visibility) .MemoMutationConflict
  require (!(policy.lifecycleOnly && !isLifecycleOnlyMemoUpdate update))
    .MemoSpaceMembershipRequired
  onlyIf snapshot.spaceID.isSome do
    require snapshot.sourceSpaceExists .MemoSpaceNotWritable
    require (policy.lifecycleOnly || adminOverride
        || SpaceWriteAllowed snapshot.sourceSpaceAccessMode snapshot.sourceMemberActive)
      .MemoSpaceMembershipRequired
  onlyIf (update.any fun update => update.spaceID.isSome) do
    require snapshot.targetSpaceExists .MemoSpaceNotWritable
    require (SpaceWriteAllowed snapshot.targetSpaceAccessMode snapshot.targetMemberActive)
      .MemoSpaceMembershipRequired
  let spaceID := resultSpaceID update snapshot.spaceID
  let visibility := resultVisibility update snapshot.visibility
  require (isValidVisibility visibility) .MemoMutationConflict
  let placementChanged := decide (spaceID ≠ snapshot.spaceID)
  require (!(placementChanged && snapshot.visibility = .SpaceAudience
    && (update.bind UpdateMemo.visibility).isNone)) .MemoMutationConflict
  require (!(policy.lifecycleOnly && !placementChanged)) .MemoSpaceMembershipRequired
  require (!(decide (visibility = .SpaceAudience) && spaceID.isNone)) .MemoSpaceNotWritable
  require (!(policy.creatingShare && visibility = .SpaceAudience)) .MemoShareConflict
  require (!(decide (update.bind UpdateMemo.visibility = some .SpaceAudience)
    && snapshot.hasActiveShare)) .MemoShareConflict

/-! ### The snapshot -/

structure PolicySpaceState where
  found : Bool := false
  memberActive : Bool := false
  memberAdmin : Bool := false
  accessMode : Option SpaceAccessMode := none

def memoPolicySpaceState (state : State) (spaceID actorUserID : Int) : PolicySpaceState :=
  match state.spaces.find? spaceID with
  | none => {}
  | some space =>
      let member := (state.members.select fun sm =>
        decide (sm.spaceID = spaceID) && decide (sm.userID = actorUserID)
          && decide (sm.status = .Active) && sm.role.isActiveMember).head?
      { found := true
        memberActive := member.any fun sm => sm.role.isActiveMember
        memberAdmin := member.any fun sm => decide (sm.role = .Admin)
        accessMode := some space.accessMode }

def hasActiveShare (state : State) (now : Int) (memoID : Int) : Bool :=
  state.shares.any fun share =>
    decide (share.memoID = memoID) && share.expiresTs.all fun expires => decide (now < expires)

/-- The memo a policy is about, if it is there and not deleted. -/
def policyMemo (state : State) (memoID : Int) : Option MemoRow :=
  (state.memos.find? memoID).filter fun memo => decide (memo.deletedTs = none)

def loadSnapshot (state : State) (now actorUserID : Int) (actor : UserRow) (memo : MemoRow)
    (update : Option UpdateMemo) : MemoWriteSnapshot :=
  let source := (memo.spaceID.map fun id => memoPolicySpaceState state id actorUserID).getD {}
  let target := ((update.bind UpdateMemo.spaceID).map fun id =>
    memoPolicySpaceState state id actorUserID).getD {}
  { creatorID := memo.creatorID
    actorInstanceAdmin := actor.role = .Admin
    rowStatus := memo.rowStatus
    spaceID := memo.spaceID
    visibility := memo.visibility
    sourceSpaceExists := source.found
    sourceSpaceAccessMode := source.accessMode
    sourceMemberActive := source.memberActive
    sourceMemberAdmin := source.memberAdmin
    targetSpaceExists := target.found
    targetSpaceAccessMode := target.accessMode
    targetMemberActive := target.memberActive
    -- Shares are only looked up for an update that sets the audience to `SPACE`.
    hasActiveShare := decide (update.bind UpdateMemo.visibility = some .SpaceAudience)
      && hasActiveShare state now memo.id }

def validateMemoWrite (state : State) (now : Int) (memoID : Int) (policy : MemoWritePolicy)
    (update : Option UpdateMemo) : Except StoreError Unit := do
  let actor ← orElse (state.users.find? policy.actorUserID) .MemoSpaceMembershipRequired
  require (actor.rowStatus = .Normal) .MemoSpaceMembershipRequired
  let memo ← orElse (policyMemo state memoID) .MemoMutationConflict
  ValidateMemoWriteSnapshot policy update
    (loadSnapshot state now policy.actorUserID actor memo update)

/-! ### The writer -/

/-- Seconds within which an editor's saves share a revision. -/
def MemoRevisionMergeWindow : Int := 600

def revisionIDs (revisions : Keyed.Table MemoRevisionRow.schema) (memoID : Int) : List Int :=
  ((revisions.select fun r => decide (r.memoID = memoID)).map MemoRevisionRow.id).mergeSort
    fun a b => decide (a ≥ b)

/-- The revision of the memo as it was, written by its last editor. -/
def revisionOf (memo : MemoRow) (id savedBy now : Int) : MemoRevisionRow :=
  { id, memoID := memo.id, editorID := memo.lastEditorID.getD memo.creatorID, savedBy,
    createdTs := now, content := memo.content, payload := memo.payload,
    visibility := memo.visibility }

def recordRevision (revisions : Keyed.Table MemoRevisionRow.schema) (recorded : Bool)
    (revision : MemoRevisionRow) : Except StoreError (Keyed.Table MemoRevisionRow.schema) :=
  if recorded then constrained (.Constraint .unique) (revisions.insert revision) else .ok revisions

def captureMemoRevision (state : State) (now : Int) (update : UpdateMemo) :
    Except StoreError State :=
  match update.revisionLimit, update.policy with
  | some revisionLimit, some policy =>
      if update.content.isNone && update.payload.isNone then .ok state
      else do
        let memo ← orElse (policyMemo state update.id) .NoRows
        let changed := (update.content.any fun content => decide (content ≠ memo.content))
          || update.payload.any fun payload => decide (payload.title ≠ memo.payload.title)
        if !changed then return state
        let limit := max 0 (min revisionLimit 200)
        let last := (revisionIDs state.revisions update.id).head?.bind state.revisions.find?
        let coalesce := last.any fun last =>
          decide (last.savedBy = policy.actorUserID)
            && decide (now - last.createdTs < MemoRevisionMergeWindow)
        let id := nextID state.revisionSequence (state.revisions.rows.map MemoRevisionRow.id)
        let recorded := limit > 0 && (!coalesce || update.revisionForce)
        let revisions ← recordRevision state.revisions recorded
          (revisionOf memo id policy.actorUserID now)
        -- With a limit, everything from the first revision beyond it on is dropped.
        let cutoff := if limit > 0 then (revisionIDs revisions update.id)[limit.toNat]? else none
        let revisions := revisions.delete fun r =>
          decide (r.memoID = update.id) && cutoff.any fun cutoff => decide (r.id ≤ cutoff)
        let memos ← constrained (.Constraint .unique) (state.memos.update
          (fun memo => decide (memo.id = update.id) && decide (memo.deletedTs = none))
          fun memo => { memo with lastEditorID := some policy.actorUserID })
        return { state with
          revisions, memos, revisionSequence := if recorded then id else state.revisionSequence }
  | _, _ => .ok state

def UpdateMemo.apply (update : UpdateMemo) (memo : MemoRow) : MemoRow :=
  { memo with
    uid := update.uid.getD memo.uid
    createdTs := update.createdTs.getD memo.createdTs
    updatedTs := update.updatedTs.getD memo.updatedTs
    rowStatus := update.rowStatus.getD memo.rowStatus
    content := update.content.getD memo.content
    visibility := update.visibility.getD memo.visibility
    pinned := update.pinned.getD memo.pinned
    payload := update.payload.getD memo.payload
    spaceID :=
      if update.clearSpace then none
      else if update.spaceID.isSome then update.spaceID
      else memo.spaceID }

def UpdateMemo.isEmpty (update : UpdateMemo) : Bool :=
  update.uid.isNone && update.createdTs.isNone && update.updatedTs.isNone
    && update.rowStatus.isNone && update.content.isNone && update.visibility.isNone
    && update.pinned.isNone && update.payload.isNone && !update.clearSpace
    && update.spaceID.isNone

def applyMemoUpdate (state : State) (now : Int) (update : UpdateMemo) : Except StoreError State := do
  let state ← captureMemoRevision state now update
  if update.isEmpty then return state
  let memos ← constrained (.Constraint .unique)
    (state.memos.update (fun memo => decide (memo.id = update.id)) update.apply)
  return { state with memos }

/-- The driver's `UpdateMemo`: without a policy, the trusted callers' path. -/
def driverUpdateMemo (state : State) (now : Int) (update : UpdateMemo) : Except StoreError State := do
  match update.policy with
  | none => applyMemoUpdate state now update
  | some policy =>
      validateMemoWrite state now update.id policy (some update)
      applyMemoUpdate state now update

/-- `Store.UpdateMemo`, in front of the driver; `validUID` is the pattern of a uid. -/
def updateMemo (validUID : String → Bool) (state : State) (now : Int) (update : UpdateMemo) :
    Except StoreError State := do
  require (update.uid.all validUID) (.Invalid "invalid uid")
  require (update.visibility.all isValidVisibility) (.Invalid "invalid visibility")
  require (!(update.clearSpace && update.visibility = some .SpaceAudience))
    (.Invalid "SPACE visibility requires a space")
  onlyIf update.policy.isSome (update.policy.elim (.ok ()) validateMemoWritePolicy)
  driverUpdateMemo state now update

end Memos.Store

/-
The private history of a memo.

Inside the transaction of an update that changes the content or the title of a memo, the
memo is stored as it was, unless whoever saves it stored the newest revision a short time
ago.  Then all but the newest revisions are dropped.  Revisions are also deleted by hand,
one by one or all at once.
-/

namespace Memos.Store

def memoRevisions (revisions : Keyed.Table MemoRevisionRow.schema) (memoID : Int) :
    List MemoRevisionRow :=
  (revisions.select fun r => decide (r.memoID = memoID)).mergeSort fun a b => decide (a.id ≥ b.id)

/-- `DeleteMemoRevisions`, where the id zero stands for all. -/
def deleteMemoRevisions (state : State) (memoID id : Int) : State :=
  { state with
    revisions := state.revisions.delete fun r =>
      decide (r.memoID = memoID) && (decide (id = 0) || decide (r.id = id)) }

def MemoRow.editor (memo : MemoRow) : Int := memo.lastEditorID.getD memo.creatorID

/-- The update sets another content, or a payload with another title. -/
def UpdateMemo.changes (update : UpdateMemo) (memo : MemoRow) : Bool :=
  (update.content.any fun content => decide (content ≠ memo.content))
    || update.payload.any fun payload => decide (payload.title ≠ memo.payload.title)

/-! ### Updates and deletions, one after the other -/

structure HistoryState where
  state : State
  clock : Int

inductive HistoryAction where
  | update (now : Int) (update : UpdateMemo)
  | deleteRevisions (memoID id : Int)

/-- An update is what it comes to past the checks of its policy. -/
def historyStep (s : HistoryState) : HistoryAction → Option HistoryState
  | .update now update =>
      if s.clock ≤ now then
        (applyMemoUpdate s.state now update).toOption.map fun state => ⟨state, now⟩
      else none
  | .deleteRevisions memoID id => some { s with state := deleteMemoRevisions s.state memoID id }

end Memos.Store
