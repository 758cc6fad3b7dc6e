/-
Spaces, their members and their users, on the SQLite driver.

Every operation here is one transaction: it reads, decides, writes, and either commits
or leaves the database as it was.  An operation is therefore a function that yields the
database after the commit or an error, and a sequence of operations is a run of these
functions in which an operation may also fail for a reason of its own (a lost
connection, a full disk, a cancelled request).

A Space is administered by its active members with role `ADMIN` whose user is in status
`NORMAL`.  Six of the operations can take such a row away, and each has a guard written
for it alone: a count of the administrators before demoting or removing one, a search
over all Spaces of a user before archiving them, and a refusal to delete a user who is
a member anywhere.
-/
import Memos.Store.Tables
import Memos.Lib.ReadCommitted

namespace Memos.Store

/-! ### Shared steps -/

def requireActiveUser (state : State) (userID : Int) : Except StoreError Unit := do
  let u ← orElse (state.users.find? userID) .SpaceMemberNotActive
  require (u.rowStatus = .Normal) .SpaceMemberNotActive

/-- The row of a member in the given status. -/
def memberIn (state : State) (spaceID userID : Int) (status : SpaceMemberStatus) :
    Option SpaceMemberRow :=
  (state.members.select fun sm =>
    decide (sm.spaceID = spaceID) && decide (sm.userID = userID) && decide (sm.status = status)).head?

/-- The role of an active member whose user is in status `NORMAL`. -/
def activeRole (state : State) (spaceID userID : Int) : Option SpaceMemberRole :=
  ((state.members.select fun sm =>
    decide (sm.spaceID = spaceID) && decide (sm.userID = userID) && decide (sm.status = .Active)
      && state.normalUser sm.userID).head?).map SpaceMemberRow.role

def authorizeSpaceAdmin (state : State) (spaceID actorUserID : Int) : Except StoreError Unit := do
  let _ ← orElse (state.spaces.find? spaceID) .SpaceNotFound
  let actor := (state.users.find? actorUserID).filter fun u => decide (u.rowStatus = .Normal)
  if actor.any fun u => decide (u.role = .Admin) then return ()
  let role ← orElse (activeRole state spaceID actorUserID) .SpacePermissionDenied
  require (role = .Admin) .SpacePermissionDenied

/-! ### Spaces -/

structure Space where
  id : Int
  uid : String
  urlSlug : String
  title : String
  description : String
  avatarURL : String
  accessMode : SpaceAccessMode
  syncToMainFeed : Bool
  currentUserRole : Option SpaceMemberRole
  memberCount : Int

def createSpace (state : State) (create : Space) (creatorID : Int) :
    Except StoreError (State × Space) := do
  requireActiveUser state creatorID
  let id := nextID state.spaceSequence (state.spaces.rows.map SpaceRow.id)
  let row : SpaceRow :=
    { id
      uid := create.uid
      urlSlug := if create.urlSlug = "" then none else some create.urlSlug
      title := create.title
      description := create.description
      avatarURL := create.avatarURL
      accessMode := create.accessMode
      syncToMainFeed := create.syncToMainFeed }
  let spaces ← constrained .SpaceAlreadyExists (state.spaces.insert row)
  let members ← constrained (.Constraint .unique)
    (state.members.insert { spaceID := id, userID := creatorID, status := .Active, role := .Admin })
  return ({ state with spaces, members, spaceSequence := id },
    { create with id, currentUserRole := some .Admin, memberCount := 1 })

structure DeleteSpace where
  id : Int
  actorUserID : Int
  instanceAdmin : Bool

def requireSpaceDeleteAdmin (state : State) (delete : DeleteSpace) : Except StoreError Unit := do
  let actor ← orElse (state.users.find? delete.actorUserID) .SpacePermissionDenied
  require (actor.rowStatus = .Normal) .SpacePermissionDenied
  let _ ← orElse (state.spaces.find? delete.id) .SpaceNotFound
  if delete.instanceAdmin && decide (actor.role = .Admin) then return ()
  let sm ← orElse (memberIn state delete.id delete.actorUserID .Active) .SpacePermissionDenied
  require (sm.role = .Admin) .SpacePermissionDenied

/-- The memos with the given ids, with their revisions and shares. -/
def deleteMemoSet (state : State) (memoIDs : List Int) : State :=
  { state with
    shares := state.shares.delete fun share => memoIDs.contains share.memoID
    revisions := state.revisions.delete fun revision => memoIDs.contains revision.memoID
    memos := state.memos.delete fun memo => memoIDs.contains memo.id }

def deleteSpace (state : State) (delete : DeleteSpace) : Except StoreError State := do
  requireSpaceDeleteAdmin state delete
  let memoIDs := (state.memos.select fun memo => decide (memo.spaceID = some delete.id)).map MemoRow.id
  let state := deleteMemoSet state memoIDs
  let members := state.members.delete fun sm => decide (sm.spaceID = delete.id)
  let deleted := state.spaces.count fun space => decide (space.id = delete.id)
  let spaces := state.spaces.delete fun space => decide (space.id = delete.id)
  require (deleted = 1) .SpaceNotFound
  return { state with members, spaces }

/-! ### Invitations -/

structure SpaceInvitation where
  spaceID : Int
  userID : Int
  role : SpaceMemberRole

structure SpaceMember where
  spaceID : Int
  userID : Int
  role : SpaceMemberRole

def createSpaceInvitation (state : State) (create : SpaceInvitation) (actorUserID : Int) :
    Except StoreError (State × SpaceInvitation) := do
  authorizeSpaceAdmin state create.spaceID actorUserID
  requireActiveUser state create.userID
  let members ← constrained .SpaceMemberAlreadyExists
    (state.members.insert
      { spaceID := create.spaceID, userID := create.userID, status := .Invited, role := create.role })
  return ({ state with members }, create)

/-- The condition on an invitation that is accepted. -/
def acceptable (spaceID userID : Int) (sm : SpaceMemberRow) : Bool :=
  decide (sm.spaceID = spaceID) && decide (sm.userID = userID) && decide (sm.status = .Invited)
    && sm.role.isActiveMember

def acceptSpaceInvitation (state : State) (spaceID userID actorUserID : Int) :
    Except StoreError (State × SpaceMember) := do
  require (userID = actorUserID) .SpacePermissionDenied
  requireActiveUser state userID
  let members ← constrained (.Constraint .unique)
    (state.members.update (acceptable spaceID userID) fun sm => { sm with status := .Active })
  let sm ← orElse (state.members.select (acceptable spaceID userID)).head? .SpaceInvitationNotFound
  return ({ state with members }, { spaceID := sm.spaceID, userID := sm.userID, role := sm.role })

/-- The row an invitation is, whatever its role. -/
def invitation (spaceID userID : Int) (sm : SpaceMemberRow) : Bool :=
  decide (sm.spaceID = spaceID) && decide (sm.userID = userID) && decide (sm.status = .Invited)

/-- `DELETE` of an invitation, with a check that there was one. -/
def deleteInvitation (state : State) (spaceID userID : Int) : Except StoreError State := do
  let deleted := state.members.count (invitation spaceID userID)
  require (deleted ≠ 0) .SpaceInvitationNotFound
  return { state with members := state.members.delete (invitation spaceID userID) }

def declineSpaceInvitation (state : State) (spaceID userID actorUserID : Int) :
    Except StoreError State := do
  require (userID = actorUserID) .SpacePermissionDenied
  requireActiveUser state userID
  deleteInvitation state spaceID userID

def revokeSpaceInvitation (state : State) (spaceID userID actorUserID : Int) :
    Except StoreError State := do
  authorizeSpaceAdmin state spaceID actorUserID
  deleteInvitation state spaceID userID

/-! ### Members -/

/-- The row of an active member. -/
def activeMember (spaceID userID : Int) (sm : SpaceMemberRow) : Bool :=
  decide (sm.spaceID = spaceID) && decide (sm.userID = userID) && decide (sm.status = .Active)

structure UpdateSpaceMember where
  spaceID : Int
  userID : Int
  role : Option SpaceMemberRole

def updateSpaceMember (state : State) (update : UpdateSpaceMember) (actorUserID : Int) :
    Except StoreError (State × SpaceMember) := do
  authorizeSpaceAdmin state update.spaceID actorUserID
  requireActiveUser state update.userID
  let current ← orElse (memberIn state update.spaceID update.userID .Active) .SpaceMemberNotFound
  onlyIf (current.role = .Admin && update.role.any fun role => decide (role ≠ .Admin)) do
    require (1 < state.activeAdminCount update.spaceID) .LastSpaceAdmin
  let role ← orElse update.role .Syntax
  let members ← constrained (.Constraint .unique)
    (state.members.update (activeMember update.spaceID update.userID) fun sm => { sm with role })
  return ({ state with members }, { spaceID := update.spaceID, userID := update.userID, role })

structure DeleteSpaceMember where
  spaceID : Int
  userID : Int
  instanceAdmin : Bool

def deleteSpaceMember (state : State) (delete : DeleteSpaceMember) (actorUserID : Int) :
    Except StoreError State := do
  let _ ← orElse (state.spaces.find? delete.spaceID) .SpaceNotFound
  onlyIf (actorUserID ≠ delete.userID && !delete.instanceAdmin) do
    let role ← orElse (activeRole state delete.spaceID actorUserID) .SpacePermissionDenied
    require (role = .Admin) .SpacePermissionDenied
  let target ← orElse (memberIn state delete.spaceID delete.userID .Active) .SpaceMemberNotFound
  -- A left join: the status is missing when the user row is.
  let targetStatus := (state.users.find? target.userID).map UserRow.rowStatus
  onlyIf (target.role = .Admin && decide (targetStatus = some .Normal)) do
    require (1 < state.activeAdminCount delete.spaceID) .LastSpaceAdmin
  return { state with members := state.members.delete (activeMember delete.spaceID delete.userID) }

/-! ### Users -/

structure UpdateUser where
  id : Int
  updatedTs : Option Int
  rowStatus : Option RowStatus
  username : Option String
  role : Option Role
  email : Option String
  nickname : Option String
  avatarURL : Option String
  passwordHash : Option String
  description : Option String

/-- The `SET` list of the update, applied to a row. -/
def UpdateUser.apply (update : UpdateUser) (u : UserRow) : UserRow :=
  { u with
    updatedTs := update.updatedTs.getD u.updatedTs
    rowStatus := update.rowStatus.getD u.rowStatus
    username := update.username.getD u.username
    role := update.role.getD u.role
    email := update.email.getD u.email
    nickname := update.nickname.getD u.nickname
    avatarURL := update.avatarURL.getD u.avatarURL
    passwordHash := update.passwordHash.getD u.passwordHash
    description := update.description.getD u.description }

/-- Whether the `SET` list is empty. -/
def UpdateUser.isEmpty (update : UpdateUser) : Bool :=
  update.updatedTs.isNone && update.rowStatus.isNone && update.username.isNone
    && update.role.isNone && update.email.isNone && update.nickname.isNone
    && update.avatarURL.isNone && update.passwordHash.isNone && update.description.isNone

/-- Some Space of the user has no administrator besides them. -/
def wouldLoseAdmin (state : State) (userID : Int) : Bool :=
  state.members.any fun target =>
    decide (target.userID = userID) && decide (target.status = .Active)
      && decide (target.role = .Admin)
      && !state.members.any fun other =>
        state.isActiveAdmin target.spaceID other && decide (other.userID ≠ userID)

def validateUserArchive (state : State) (userID : Int) : Except StoreError Unit := do
  let current ← orElse (state.users.find? userID) .NoRows
  onlyIf (current.rowStatus = .Normal) do
    require (!wouldLoseAdmin state userID) .LastSpaceAdmin

def updateUser (state : State) (update : UpdateUser) : Except StoreError (State × UserRow) := do
  onlyIf (update.rowStatus = some .Archived) (validateUserArchive state update.id)
  require (!update.isEmpty) .Syntax
  let users ← constrained (.Constraint .unique)
    (state.users.update (fun u => decide (u.id = update.id)) update.apply)
  let user ← orElse (users.find? update.id) .NoRows
  return ({ state with users }, user)

/-- Deleting a missing user succeeds and does nothing. -/
def deleteUser (state : State) (userID : Int) : Except StoreError State := do
  if (state.users.find? userID).isNone then return state
  let membershipCount := state.members.count fun sm =>
    decide (sm.userID = userID) && decide (sm.status ≠ .Invited)
  require (membershipCount = 0) .UserHasSpaceMembership
  let members := state.members.delete fun sm =>
    decide (sm.userID = userID) && decide (sm.status = .Invited)
  let memoIDs := (state.memos.select fun memo => decide (memo.creatorID = userID)).map MemoRow.id
  let state := deleteMemoSet { state with members } memoIDs
  return { state with
    shares := state.shares.delete fun share => decide (share.creatorID = userID)
    users := state.users.delete fun u => decide (u.id = userID) }

/-! ### Runs -/

/-- The mutations of Spaces, members and users, each with its arguments. -/
inductive Operation where
  | createSpace (create : Space) (creatorID : Int)
  | createSpaceInvitation (create : SpaceInvitation) (actorUserID : Int)
  | acceptSpaceInvitation (spaceID userID actorUserID : Int)
  | declineSpaceInvitation (spaceID userID actorUserID : Int)
  | revokeSpaceInvitation (spaceID userID actorUserID : Int)
  | updateSpaceMember (update : UpdateSpaceMember) (actorUserID : Int)
  | deleteSpaceMember (delete : DeleteSpaceMember) (actorUserID : Int)
  | deleteSpace (delete : DeleteSpace)
  | updateUser (update : UpdateUser)
  | deleteUser (userID : Int)

/-- The database an operation commits. -/
def Operation.commit (state : State) : Operation → Except StoreError State
  | .createSpace create creatorID => (Store.createSpace state create creatorID).map Prod.fst
  | .createSpaceInvitation create actor =>
      (Store.createSpaceInvitation state create actor).map Prod.fst
  | .acceptSpaceInvitation space user actor =>
      (Store.acceptSpaceInvitation state space user actor).map Prod.fst
  | .declineSpaceInvitation space user actor => Store.declineSpaceInvitation state space user actor
  | .revokeSpaceInvitation space user actor => Store.revokeSpaceInvitation state space user actor
  | .updateSpaceMember update actor => (Store.updateSpaceMember state update actor).map Prod.fst
  | .deleteSpaceMember delete actor => Store.deleteSpaceMember state delete actor
  | .deleteSpace delete => Store.deleteSpace state delete
  | .updateUser update => (Store.updateUser state update).map Prod.fst
  | .deleteUser user => Store.deleteUser state user

/-- One operation, told whether something outside it makes it fail. -/
def Operation.perform (state : State) (operation : Operation) (interrupted : Bool) : State :=
  match operation.commit state, interrupted with
  | .ok committed, false => committed
  | _, _ => state

/-- A sequence of operations. -/
def perform : State → List (Operation × Bool) → State
  | state, [] => state
  | state, (operation, interrupted) :: rest => perform (operation.perform state interrupted) rest

end Memos.Store

/-
The last-administrator guards on the Postgres driver.

Three operations can take a member's rights away: a demotion, a removal and the archival
of a user.  On this driver each runs in a transaction at READ COMMITTED, with one query
for each thing it wants to know and one write at the end.  Nothing but that write takes
a lock, so what a query saw may be gone when the write is made.  The operations are
therefore scripts, with one query where the source has one `SELECT`, and the database
around them is the only one there is to run two of them at once.

The schema differs from the one of the SQLite driver in one column that matters here:
no `CHECK` bounds the status of a user.
-/

namespace Memos.Store.Postgres

open ReadCommitted

/-! ### Tables -/

def userSchema : Keyed.Schema Int UserRow := { UserRow.schema with check := fun _ => true }

/-- The tables the three operations read or write. -/
structure State where
  users : Keyed.Table userSchema
  spaces : Keyed.Table SpaceRow.schema
  members : Keyed.Table SpaceMemberRow.schema

namespace State

def userStatus (state : State) (userID : Int) : Option RowStatus :=
  (state.users.find? userID).map UserRow.rowStatus

/-- A join with the user table on a member's user, for a user in status `NORMAL`. -/
def normalUser (state : State) (userID : Int) : Bool :=
  state.users.any fun u => decide (u.id = userID) && decide (u.rowStatus = .Normal)

/-- The rows every last-admin guard counts. -/
def isActiveAdmin (state : State) (spaceID : Int) (sm : SpaceMemberRow) : Bool :=
  decide (sm.spaceID = spaceID) && decide (sm.status = .Active) && decide (sm.role = .Admin)
    && state.normalUser sm.userID

def activeAdminCount (state : State) (spaceID : Int) : Nat :=
  state.members.count (state.isActiveAdmin spaceID)

/-- The role of an active member. -/
def memberRole (state : State) (spaceID userID : Int) : Option SpaceMemberRole :=
  ((state.members.select (activeMember spaceID userID)).head?).map SpaceMemberRow.role

/-- The role of an active member whose user is in status `NORMAL`. -/
def activeRole (state : State) (spaceID userID : Int) : Option SpaceMemberRole :=
  ((state.members.select fun sm =>
    activeMember spaceID userID sm && state.normalUser sm.userID).head?).map SpaceMemberRow.role

/-- Some Space of a user in status `NORMAL` has no administrator besides them. -/
def isLastActiveAdmin (state : State) (userID : Int) : Bool :=
  state.normalUser userID && state.members.any fun target =>
    decide (target.userID = userID) && decide (target.status = .Active)
      && decide (target.role = .Admin)
      && state.spaces.any (fun space => decide (space.id = target.spaceID))
      && !state.members.any fun other =>
        state.isActiveAdmin target.spaceID other && decide (other.userID ≠ userID)

end State

/-! ### Writes -/

inductive Write where
  | updateMember (spaceID userID : Int) (role : SpaceMemberRole)
  | deleteMember (spaceID userID : Int)
  | updateUser (update : UpdateUser)

/-- A write in the statement's own terms.  An `UPDATE … RETURNING` fails when it finds no
row, a `DELETE` does not. -/
def Write.apply : Write → State → Except StoreError State
  | .updateMember spaceID userID role, state => do
      let members ← constrained (.Constraint .unique)
        (state.members.update (activeMember spaceID userID) fun sm => { sm with role })
      let _ ← orElse (members.select (activeMember spaceID userID)).head? .NoRows
      return { state with members }
  | .deleteMember spaceID userID, state =>
      return { state with members := state.members.delete (activeMember spaceID userID) }
  | .updateUser update, state => do
      let users ← constrained (.Constraint .unique)
        (state.users.update (fun u => decide (u.id = update.id)) update.apply)
      let _ ← orElse (users.find? update.id) .NoRows
      return { state with users }

/-- The row a write locks: one of `space_member` or one of `"user"`. -/
def Write.row : Write → (Int × Int) ⊕ Int
  | .updateMember spaceID userID _ => .inl (spaceID, userID)
  | .deleteMember spaceID userID => .inl (spaceID, userID)
  | .updateUser update => .inr update.id

def database : Database State Write ((Int × Int) ⊕ Int) StoreError where
  apply := Write.apply
  row := Write.row

/-! ### Operations -/

abbrev Query := Script State StoreError

def authorizeSpaceAdmin (spaceID actorUserID : Int) : Query Unit := do
  let space ← Script.ask fun state => state.spaces.find? spaceID
  let _ ← orElse space .SpaceNotFound
  let actor ← Script.ask fun state =>
    (state.users.find? actorUserID).filter fun u => decide (u.rowStatus = .Normal)
  Script.onlyIf (!actor.any fun u => decide (u.role = .Admin)) do
    let member ← Script.ask fun state => state.activeRole spaceID actorUserID
    let role ← orElse member .SpacePermissionDenied
    require (role = .Admin) .SpacePermissionDenied

/-- The statuses of some users by id, added to those already known.  A user without a row
gets no entry. -/
def readUserStatuses : List Int → List (Int × RowStatus) → Query (List (Int × RowStatus))
  | [], statuses => pure statuses
  | userID :: rest, statuses =>
      if (statuses.lookup userID).isSome then readUserStatuses rest statuses
      else do
        let status ← Script.ask fun state => state.userStatus userID
        readUserStatuses rest ((status.toList.map fun status => (userID, status)) ++ statuses)

def requireActiveUsers (userIDs : List Int) : Query Unit := do
  let statuses ← readUserStatuses userIDs []
  require (userIDs.all fun userID => decide (statuses.lookup userID = some .Normal))
    .SpaceMemberNotActive

def requireActiveUser (userID : Int) : Query Unit := requireActiveUsers [userID]

/-- The count both membership guards make. -/
def requireOtherAdmin (spaceID : Int) : Query Unit := do
  let count ← Script.ask fun state => state.activeAdminCount spaceID
  require (1 < count) .LastSpaceAdmin

def updateSpaceMember (update : UpdateSpaceMember) (actorUserID : Int) : Query Write := do
  authorizeSpaceAdmin update.spaceID actorUserID
  requireActiveUser update.userID
  let member ← Script.ask fun state => state.memberRole update.spaceID update.userID
  let current ← orElse member .SpaceMemberNotFound
  Script.onlyIf (current = .Admin && update.role.any fun role => decide (role ≠ .Admin))
    (requireOtherAdmin update.spaceID)
  let role ← orElse update.role .Syntax
  return .updateMember update.spaceID update.userID role

def deleteSpaceMember (delete : DeleteSpaceMember) (actorUserID : Int) : Query Write := do
  let userStatuses ← readUserStatuses [actorUserID, delete.userID] []
  require (actorUserID = delete.userID || userStatuses.lookup actorUserID = some .Normal)
    .SpacePermissionDenied
  let space ← Script.ask fun state => state.spaces.find? delete.spaceID
  let _ ← orElse space .SpaceNotFound
  Script.onlyIf (actorUserID ≠ delete.userID && !delete.instanceAdmin) do
    let member ← Script.ask fun state => state.memberRole delete.spaceID actorUserID
    let role ← orElse member .SpacePermissionDenied
    require (role = .Admin) .SpacePermissionDenied
  let member ← Script.ask fun state => state.memberRole delete.spaceID delete.userID
  let role ← orElse member .SpaceMemberNotFound
  Script.onlyIf (role = .Admin && userStatuses.lookup delete.userID = some .Normal)
    (requireOtherAdmin delete.spaceID)
  return .deleteMember delete.spaceID delete.userID

def validateUserArchive (userID : Int) : Query Unit := do
  let isLastActiveAdmin ← Script.ask fun state => state.isLastActiveAdmin userID
  require (!isLastActiveAdmin) .LastSpaceAdmin

def updateUser (update : UpdateUser) : Query Write := do
  Script.onlyIf (update.rowStatus = some .Archived) (validateUserArchive update.id)
  require (!update.isEmpty) .Syntax
  return .updateUser update

/-- The operations that can take an administrator away. -/
inductive Operation where
  | updateSpaceMember (update : UpdateSpaceMember) (actorUserID : Int)
  | deleteSpaceMember (delete : DeleteSpaceMember) (actorUserID : Int)
  | archiveUser (update : UpdateUser) (archives : update.rowStatus = some .Archived)

def Operation.script : Operation → Query Write
  | .updateSpaceMember update actor => Postgres.updateSpaceMember update actor
  | .deleteSpaceMember delete actor => Postgres.deleteSpaceMember delete actor
  | .archiveUser update _ => Postgres.updateUser update

/-- The user whose administration of a Space an operation can end. -/
def Operation.removes (spaceID : Int) : Operation → Option Int
  | .updateSpaceMember update _ =>
      if update.spaceID = spaceID ∧ update.role.any fun role => decide (role ≠ .Admin) then
        some update.userID
      else none
  | .deleteSpaceMember delete _ =>
      if delete.spaceID = spaceID then some delete.userID else none
  | .archiveUser update _ => some update.id

/-- Two operations before their first statement, whatever the database holds. -/
def begin (state : State) (operation : Bool → Operation) : Config State Write StoreError :=
  .start state fun i => (operation i).script

end Memos.Store.Postgres
