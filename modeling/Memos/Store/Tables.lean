/-
The tables of the store that memos, Spaces and their members live in.

Columns of text that the code treats as an enumeration are enumerations here, each with
a case for any other text; whether such a text may stand in a row is for the `CHECK`
constraints of the schema to say, and most of the code below asks again anyway.  A
nullable column is an option.  Columns that no operation on these tables reads or writes
are left out, as is every table that only receives the deletions that follow a memo.
-/
import Memos.Lib.Keyed

namespace Memos.Store

/-! ### Enumerations -/

inductive RowStatus where
  | Normal
  | Archived
  | unrecognised
deriving DecidableEq

inductive Role where
  | Admin
  | User
  | unrecognised
deriving DecidableEq

inductive SpaceMemberStatus where
  | Invited
  | Active
  | unrecognised
deriving DecidableEq

inductive SpaceMemberRole where
  | Admin
  | User
  | unrecognised
deriving DecidableEq

def SpaceMemberRole.isActiveMember (role : SpaceMemberRole) : Bool :=
  role = .Admin || role = .User

inductive SpaceAccessMode where
  | InviteOnly
  | Authenticated
  | Public
  | unrecognised
deriving DecidableEq

inductive Visibility where
  | Public
  | Protected
  | Private
  | SpaceAudience
  | unrecognised
deriving DecidableEq

def isValidVisibility (visibility : Visibility) : Bool :=
  visibility = .Public || visibility = .Protected || visibility = .Private
    || visibility = .SpaceAudience

/-! ### Rows and their constraints -/

structure UserRow where
  id : Int
  createdTs : Int
  updatedTs : Int
  rowStatus : RowStatus
  username : String
  role : Role
  email : String
  nickname : String
  passwordHash : String
  avatarURL : String
  description : String

def UserRow.schema : Keyed.Schema Int UserRow where
  key := UserRow.id
  clash r s := r.id = s.id || r.username = s.username
  check r := r.rowStatus ≠ .unrecognised
  clash_of_key r s h := by simp [h]

def UserRow.withDefaults (id : Int) (username : String) : UserRow :=
  { id, createdTs := 0, updatedTs := 0, rowStatus := .Normal, username, role := .User, email := "",
    nickname := "", passwordHash := "", avatarURL := "", description := "" }

structure SpaceRow where
  id : Int
  uid : String
  urlSlug : Option String
  title : String
  description : String
  avatarURL : String
  accessMode : SpaceAccessMode
  syncToMainFeed : Bool

def SpaceRow.schema : Keyed.Schema Int SpaceRow where
  key := SpaceRow.id
  clash r s := r.id = s.id || r.uid = s.uid || (r.urlSlug.isSome && r.urlSlug = s.urlSlug)
  check r := r.accessMode ≠ .unrecognised
  clash_of_key r s h := by simp [h]

structure SpaceMemberRow where
  spaceID : Int
  userID : Int
  status : SpaceMemberStatus
  role : SpaceMemberRole

def SpaceMemberRow.key (sm : SpaceMemberRow) : Int × Int := (sm.spaceID, sm.userID)

def SpaceMemberRow.schema : Keyed.Schema (Int × Int) SpaceMemberRow where
  key := SpaceMemberRow.key
  clash r s := r.key = s.key
  check r := r.role ≠ .unrecognised
  clash_of_key r s h := by simp [h]

/-- Where a memo was written; a coordinate is the bits of a double. -/
structure Location where
  placeholder : String
  latitude : UInt64
  longitude : UInt64
deriving DecidableEq

structure PollOption where
  id : String
  text : String
  imageName : String
deriving DecidableEq

structure Poll where
  question : String
  imageName : String
  options : List PollOption
  allowMultiple : Bool
  startTs : Int
  endTs : Int
  maxSelections : Int
  voterType : String
  hideResultsUntilVoted : Bool
  showVotersBeforeVoting : Bool
  showVotersAfterVoting : Bool
  showVoterChoices : Bool
deriving DecidableEq

/-- The payload of a memo.  The first fields, up to `tags`, are calculated from the
content. -/
structure MemoPayload where
  title : String
  hasLink : Bool := false
  hasTaskList : Bool := false
  hasCode : Bool := false
  hasIncompleteTasks : Bool := false
  tags : List String := []
  location : Option Location := none
  category : String := ""
  hidden : Bool := false
  /-- Only the creator and administrators see a draft, until `publishTs` is reached; zero
  means that it is not scheduled. -/
  draft : Bool := false
  publishTs : Int := 0
  quarantined : Bool := false
  anonymous : Bool := false
  adminScript : String := ""
  hideTime : Bool := false
  poll : Option Poll := none
deriving DecidableEq

structure MemoRow where
  id : Int
  uid : String
  creatorID : Int
  createdTs : Int
  updatedTs : Int
  rowStatus : RowStatus
  content : String
  visibility : Visibility
  pinned : Bool
  payload : MemoPayload
  spaceID : Option Int
  deletedTs : Option Int
  lastEditorID : Option Int

def MemoRow.schema : Keyed.Schema Int MemoRow where
  key := MemoRow.id
  clash r s := r.id = s.id || r.uid = s.uid
  check r := r.rowStatus ≠ .unrecognised && r.visibility ≠ .unrecognised
  clash_of_key r s h := by simp [h]

def MemoRow.withDefaults (id : Int) (uid : String) (creatorID : Int) (visibility : Visibility)
    (spaceID : Option Int) : MemoRow :=
  { id, uid, creatorID, createdTs := 0, updatedTs := 0, rowStatus := .Normal, content := "",
    visibility, pinned := false, payload := { title := "" }, spaceID, deletedTs := none, lastEditorID := none }

structure MemoShareRow where
  id : Int
  uid : String
  memoID : Int
  creatorID : Int
  createdTs : Int
  expiresTs : Option Int

def MemoShareRow.schema : Keyed.Schema Int MemoShareRow where
  key := MemoShareRow.id
  clash r s := r.id = s.id || r.uid = s.uid
  check _ := true
  clash_of_key r s h := by simp [h]

structure MemoRevisionRow where
  id : Int
  memoID : Int
  editorID : Int
  savedBy : Int
  createdTs : Int
  content : String
  payload : MemoPayload
  visibility : Visibility

def MemoRevisionRow.schema : Keyed.Schema Int MemoRevisionRow where
  key := MemoRevisionRow.id
  clash r s := r.id = s.id
  check _ := true
  clash_of_key r s h := by simp [h]

structure State where
  users : Keyed.Table UserRow.schema
  spaces : Keyed.Table SpaceRow.schema
  members : Keyed.Table SpaceMemberRow.schema
  memos : Keyed.Table MemoRow.schema
  shares : Keyed.Table MemoShareRow.schema
  revisions : Keyed.Table MemoRevisionRow.schema
  /-- The largest id the space table ever handed out. -/
  spaceSequence : Int
  /-- The largest id the revision table ever handed out. -/
  revisionSequence : Int
  /-- The effective instance access policy lets visitors in. -/
  allowsAnonymousAccess : Bool

/-- The id `AUTOINCREMENT` gives the next row. -/
def nextID (sequence : Int) (ids : List Int) : Int := ids.foldl max sequence + 1

theorem lt_nextID {sequence id : Int} {ids : List Int} (h : id ∈ ids) : id < nextID sequence ids := by
  have largest : ∀ (ids : List Int) (sequence : Int),
      sequence ≤ ids.foldl max sequence ∧ ∀ id ∈ ids, id ≤ ids.foldl max sequence := by
    intro ids
    induction ids with
    | nil => exact fun sequence => ⟨Int.le_refl _, fun _ h => absurd h List.not_mem_nil⟩
    | cons first rest ih =>
        intro sequence
        obtain ⟨least, others⟩ := ih (max sequence first)
        refine ⟨Int.le_trans (Int.le_max_left _ _) least, fun id hid => ?_⟩
        rcases List.mem_cons.mp hid with rfl | hid
        · exact Int.le_trans (Int.le_max_right _ _) least
        · exact others id hid
  exact Int.lt_add_one_of_le ((largest ids sequence).2 id h)

/-! ### Errors -/

inductive StoreError where
  | LastSpaceAdmin
  | SpacePermissionDenied
  | SpaceMemberNotActive
  | SpaceAlreadyExists
  | SpaceMemberAlreadyExists
  | SpaceNotFound
  | SpaceMemberNotFound
  | SpaceInvitationNotFound
  | UserHasSpaceMembership
  | MemoSpaceNotWritable
  | MemoSpaceMembershipRequired
  | MemoPermissionDenied
  | MemoShareConflict
  | MemoMutationConflict
  | NoRows
  /-- A constraint stopped a statement, and the caller has no name for it. -/
  | Constraint (violation : Keyed.Violation)
  /-- An `UPDATE` with nothing to set is not a statement. -/
  | Syntax
  | Unreadable
  /-- The arguments are refused before the database is asked. -/
  | Invalid (message : String)
deriving DecidableEq

def StoreError.message : StoreError → String
  | .LastSpaceAdmin => "cannot remove the last space admin"
  | .SpacePermissionDenied => "space permission denied"
  | .SpaceMemberNotActive => "space member user is not active"
  | .SpaceAlreadyExists => "space already exists"
  | .SpaceMemberAlreadyExists => "space member already exists"
  | .SpaceNotFound => "space not found"
  | .SpaceMemberNotFound => "space member not found"
  | .SpaceInvitationNotFound => "space invitation not found"
  | .UserHasSpaceMembership => "user still has space memberships"
  | .MemoSpaceNotWritable => "memo space is not writable"
  | .MemoSpaceMembershipRequired => "active space membership required"
  | .MemoPermissionDenied => "memo mutation permission denied"
  | .MemoShareConflict => "active memo share conflicts with audience"
  | .MemoMutationConflict => "memo state changed"
  | .NoRows => "sql: no rows in result set"
  | .Constraint .unique => "UNIQUE constraint failed"
  | .Constraint .check => "CHECK constraint failed"
  | .Syntax => "SQL logic error: syntax error"
  | .Unreadable => "proto: syntax error"
  | .Invalid message => message

/-- A constraint violation as the error of the operation that met it. -/
def constrained {α : Type} (unique : StoreError) : Except Keyed.Violation α → Except StoreError α
  | .ok t => .ok t
  | .error .unique => .error unique
  | .error .check => .error (.Constraint .check)

theorem of_constrained {α : Type} {unique : StoreError} {r : Except Keyed.Violation α} {t : α}
    (h : constrained unique r = .ok t) : r = .ok t := by
  match r, h with
  | .ok _, h => exact congrArg Except.ok (Except.ok.inj h)

/-! ### Transactions

A transaction reads, decides and writes, and what it yields is the database it commits or
the error it ends with.  The steps below are the ways it can end early; the lemmas say
what is known when it did not.
-/

/-- Ends the transaction with an error unless the condition holds. -/
def require (condition : Bool) (err : StoreError) : Except StoreError Unit :=
  if condition then .ok () else .error err

/-- A check made only under a condition. -/
def onlyIf (condition : Bool) (check : Except StoreError Unit) : Except StoreError Unit :=
  if condition then check else .ok ()

def orElse {α : Type} (row : Option α) (err : StoreError) : Except StoreError α :=
  match row with
  | some a => .ok a
  | none => .error err

@[simp] theorem require_eq_ok {condition : Bool} {err : StoreError} {u : Unit} :
    require condition err = .ok u ↔ condition = true := by
  cases condition with
  | true => simp [require]
  | false => simp [require]

@[simp] theorem onlyIf_eq_ok {condition : Bool} {check : Except StoreError Unit} {u : Unit} :
    onlyIf condition check = .ok u ↔ (condition = true → check = .ok u) := by
  cases condition with
  | true => simp [onlyIf]
  | false => simp [onlyIf]

@[simp] theorem orElse_eq_ok {α : Type} {row : Option α} {err : StoreError} {a : α} :
    orElse row err = .ok a ↔ row = some a := by
  cases row with
  | none => simp [orElse]
  | some b => simp [orElse]

@[simp] theorem bind_eq_ok {α β : Type} {x : Except StoreError α} {f : α → Except StoreError β}
    {b : β} : (x >>= f) = .ok b ↔ ∃ a, x = .ok a ∧ f a = .ok b := by
  cases x with
  | error e => simp [bind, Except.bind]
  | ok a => simp [bind, Except.bind]

theorem map_eq_ok {α β : Type} {x : Except StoreError α} {f : α → β} {b : β} :
    x.map f = .ok b ↔ ∃ a, x = .ok a ∧ f a = b := by
  cases x with
  | error e => simp [Except.map]
  | ok a => simp [Except.map]

@[simp] theorem pure_eq_ok {α : Type} {a b : α} :
    (pure a : Except StoreError α) = .ok b ↔ a = b := by
  simp [pure, Except.pure]

/-! ### Conditions that several statements share -/

namespace State

/-- A join with the user table on a member's user, for a user in status `NORMAL`. -/
def normalUser (state : State) (userID : Int) : Bool :=
  state.users.any fun u => decide (u.id = userID) && decide (u.rowStatus = .Normal)

/-- The rows every last-admin guard counts. -/
def isActiveAdmin (state : State) (spaceID : Int) (sm : SpaceMemberRow) : Bool :=
  decide (sm.spaceID = spaceID) && decide (sm.status = .Active) && decide (sm.role = .Admin)
    && state.normalUser sm.userID

def activeAdminCount (state : State) (spaceID : Int) : Nat :=
  state.members.count (state.isActiveAdmin spaceID)

end State

end Memos.Store
