/-
Who may read a memo, asked of one memo at a time.

`CheckMemoReadContext` decides from facts that were looked up before: the memo, the
viewer, whether the instance lets visitors in, whether the creator and the Space are
there, the Space's access mode and whether the viewer is a member.  The lookups are
`ResolveMemoReadContext`.

Everything is closed by default: an audience or a state the policy does not know is a
memo that does not exist.
-/
import Memos.Store.Tables

namespace Memos.Access

open Store

/-! ### The decision -/

inductive MemoReadDenial where
  | None
  /-- Hides missing, archived and invalid memos. -/
  | NotFound
  | Unauthenticated
  | Permission
deriving DecidableEq

/-- Whether the resource is readable without credentials. -/
inductive MemoReadClass where
  | Private
  | Public
deriving DecidableEq

structure MemoReadDecision where
  denial : MemoReadDenial := .None
  readClass : MemoReadClass := .Private
deriving DecidableEq

def MemoReadDecision.allowed (d : MemoReadDecision) : Bool := d.denial = .None

structure MemoReadContext where
  memo : Option MemoRow
  viewer : Option UserRow
  allowAnonymous : Bool
  sharedMemoID : Option Int
  creatorValid : Bool
  spaceValid : Bool
  spaceAccessMode : Option SpaceAccessMode
  viewerSpaceMember : Bool

/-- The last part of the policy: the audience of a memo that is otherwise readable. -/
def checkAudience (ctx : MemoReadContext) (memo : MemoRow) (viewerActive viewerIsAuthor : Bool) :
    MemoReadDecision :=
  match memo.visibility with
  | .Public =>
      if ctx.allowAnonymous then { readClass := .Public }
      else if viewerActive then { readClass := .Private }
      else { denial := .Unauthenticated }
  | .Protected =>
      if viewerActive then { readClass := .Private } else { denial := .Unauthenticated }
  | .Private =>
      if !viewerActive then { denial := .Unauthenticated }
      else if !viewerIsAuthor then { denial := .Permission }
      else { readClass := .Private }
  | .SpaceAudience =>
      if ctx.spaceAccessMode = some .Public && ctx.allowAnonymous then { readClass := .Public }
      else if !viewerActive then { denial := .Unauthenticated }
      else if ctx.viewerSpaceMember || ctx.spaceAccessMode = some .Public
          || ctx.spaceAccessMode = some .Authenticated then
        { readClass := .Private }
      else { denial := .Permission }
  | .unrecognised => { denial := .NotFound }

def CheckMemoReadContext (ctx : MemoReadContext) : MemoReadDecision :=
  match ctx.memo with
  | none => { denial := .NotFound }
  | some memo =>
      if !ctx.creatorValid then { denial := .NotFound }
      else if !isValidVisibility memo.visibility then { denial := .NotFound }
      else if memo.visibility = .SpaceAudience && (memo.spaceID.isNone || !ctx.spaceValid) then
        { denial := .NotFound }
      else
        let viewerActive := ctx.viewer.any fun viewer => decide (viewer.rowStatus = .Normal)
        let viewerIsAuthor := viewerActive
          && ctx.viewer.any fun viewer => decide (viewer.id = memo.creatorID)
        if memo.rowStatus = .Archived && !viewerIsAuthor then { denial := .NotFound }
        else if memo.rowStatus ≠ .Normal && memo.rowStatus ≠ .Archived then
          { denial := .NotFound }
        -- Its author keeps an archived memo whatever its audience was.
        else if memo.rowStatus = .Archived && viewerIsAuthor then { readClass := .Private }
        else if ctx.sharedMemoID = some memo.id && memo.visibility ≠ .SpaceAudience then
          { readClass := .Private }
        else checkAudience ctx memo viewerActive viewerIsAuthor

/-! ### The lookups -/

def getUser (state : State) (id : Int) : Option UserRow := state.users.find? id

def getSpace (state : State) (id : Int) : Option SpaceRow := state.spaces.find? id

/-- The first row of `ListSpaceMembers` for a Space and a user. -/
def getSpaceMember (state : State) (spaceID userID : Int) : Option SpaceMemberRow :=
  (state.members.select fun sm =>
    decide (sm.status = .Active) && sm.role.isActiveMember
      && (state.spaces.any fun space => decide (space.id = sm.spaceID))
      && state.normalUser sm.userID
      && decide (sm.spaceID = spaceID) && decide (sm.userID = userID)).head?

/-- `GetMemo` by uid; by default a deleted memo is not found. -/
def getMemo (state : State) (uid : String) : Option MemoRow :=
  (state.memos.select fun memo => decide (memo.deletedTs = none) && decide (memo.uid = uid)).head?

structure MemoReadFacts where
  memo : Option MemoRow
  creatorValid : Bool := false
  spaceValid : Bool := false
  spaceAccessMode : Option SpaceAccessMode := none

def ResolveMemoReadFacts (state : State) (memo : Option MemoRow) : MemoReadFacts :=
  match memo with
  | none => { memo := none }
  | some m =>
      let creator := getUser state m.creatorID
      let space := m.spaceID.bind (getSpace state)
      { memo := some m
        creatorValid := creator.any fun u =>
          decide (u.id = m.creatorID) && (u.rowStatus = .Normal || u.rowStatus = .Archived)
        spaceValid := m.spaceID.isNone || space.isSome
        spaceAccessMode := space.map SpaceRow.accessMode }

def MemoReadFacts.withViewer (f : MemoReadFacts) (state : State) (viewer : Option UserRow)
    (allowAnonymous : Bool) (sharedMemoID : Option Int) : MemoReadContext :=
  let member := match f.memo.bind MemoRow.spaceID, viewer with
    | some spaceID, some u =>
        f.spaceValid && decide (u.rowStatus = .Normal)
          && (getSpaceMember state spaceID u.id).any fun sm => sm.role.isActiveMember
    | _, _ => false
  { memo := f.memo
    viewer
    allowAnonymous
    sharedMemoID
    creatorValid := f.creatorValid
    spaceValid := f.spaceValid
    spaceAccessMode := f.spaceAccessMode
    viewerSpaceMember := member }

def ResolveMemoReadContext (state : State) (memo : Option MemoRow) (viewer : Option UserRow)
    (allowAnonymous : Bool) (sharedMemoID : Option Int) : MemoReadContext :=
  (ResolveMemoReadFacts state memo).withViewer state viewer allowAnonymous sharedMemoID

/-! ### The caller of a request -/

/-- The user a request is authenticated as, if that user is active. -/
def fetchCurrentUser (state : State) (authUserID : Int) : Except String (Option UserRow) :=
  if authUserID = 0 then .ok none
  else
    match getUser state authUserID with
    | none => .error ("user " ++ toString authUserID ++ " not found")
    | some user => if user.rowStatus = .Normal then .ok (some user) else .ok none

/-- Visitors are let in by the instance policy, and only where nobody is signed in. -/
def allowAnonymous (state : State) (viewer : Option UserRow) : Bool :=
  viewer.isNone && state.allowsAnonymousAccess

/-- `buildMemoReadContext`, for the memo that `GetMemo` finds. -/
def buildMemoReadContext (state : State) (authUserID : Int) (uid : String)
    (sharedMemoID : Option Int) : Except String MemoReadContext :=
  match fetchCurrentUser state authUserID with
  | .error _ => .error "failed to get user"
  | .ok viewer =>
      .ok (ResolveMemoReadContext state (getMemo state uid) viewer (allowAnonymous state viewer)
        sharedMemoID)

end Memos.Access
