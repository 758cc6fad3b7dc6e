/-
Who may refer to a memo.

A memo that refers to another, or comments on it, is written only if its author may read
the other one.  The driver decides that inside its transaction, on a snapshot of its own:
it does not call the read policy, and what it does not load it cannot ask.
-/
import Memos.Store.Tables

namespace Memos.Store

/-- What the driver loads of one endpoint of a relation. -/
structure MemoRelationEndpointSnapshot where
  actorUserID : Int
  actorActive : Bool
  endpointID : Int
  endpointCreatorID : Int
  endpointRowStatus : RowStatus
  endpointVisibility : Visibility
  endpointSpaceID : Option Int
  endpointSpaceExists : Bool := false
  endpointMemberActive : Bool := false

def ValidateMemoRelationEndpointRead (snapshot : MemoRelationEndpointSnapshot) :
    Except StoreError Unit := do
  require snapshot.actorActive .MemoPermissionDenied
  require (0 < snapshot.endpointID) .MemoMutationConflict
  require (snapshot.endpointRowStatus = .Normal || snapshot.endpointRowStatus = .Archived)
    .MemoMutationConflict
  require (!(snapshot.endpointRowStatus = .Archived
    && snapshot.endpointCreatorID ≠ snapshot.actorUserID)) .MemoPermissionDenied
  require (isValidVisibility snapshot.endpointVisibility) .MemoMutationConflict
  require (!(snapshot.endpointVisibility = .SpaceAudience
    && (snapshot.endpointSpaceID.isNone || !snapshot.endpointSpaceExists))) .MemoMutationConflict
  match snapshot.endpointVisibility with
  | .Public | .Protected => return
  | .Private =>
      require (snapshot.endpointCreatorID = snapshot.actorUserID) .MemoPermissionDenied
  | .SpaceAudience => require snapshot.endpointMemberActive .MemoPermissionDenied
  | .unrecognised => .error .MemoMutationConflict

def sqliteSpaceMemberActive (state : State) (spaceID userID : Int) : Bool :=
  (state.members.select fun sm =>
    decide (sm.spaceID = spaceID) && decide (sm.userID = userID) && decide (sm.status = .Active)
      && (sm.role = .Admin || sm.role = .User)).head?.any fun sm => sm.role.isActiveMember

/-- The memo of an endpoint, if it is there and not deleted. -/
def getSQLiteRelationMemoState (state : State) (memoID : Int) : Option MemoRow :=
  (state.memos.find? memoID).filter fun memo => decide (memo.deletedTs = none)

def endpointSnapshot (state : State) (actorUserID : Int) (actorStatus : RowStatus)
    (memo : MemoRow) : MemoRelationEndpointSnapshot :=
  let snapshot : MemoRelationEndpointSnapshot :=
    { actorUserID
      actorActive := actorStatus = .Normal
      endpointID := memo.id
      endpointCreatorID := memo.creatorID
      endpointRowStatus := memo.rowStatus
      endpointVisibility := memo.visibility
      endpointSpaceID := memo.spaceID }
  match memo.spaceID with
  | none => snapshot
  | some spaceID =>
      let found := state.spaces.any fun space => decide (space.id = spaceID)
      { snapshot with
        endpointSpaceExists := found
        -- Members of a Space that is gone are not looked up.
        endpointMemberActive := found && sqliteSpaceMemberActive state spaceID actorUserID }

/-- One round of the loop over the endpoints. -/
def validateSQLiteMemoRelationEndpoint (state : State) (actorUserID : Int)
    (actorStatus : RowStatus) (endpointID : Int) : Except StoreError Unit := do
  let memo ← orElse (getSQLiteRelationMemoState state endpointID) .MemoMutationConflict
  ValidateMemoRelationEndpointRead (endpointSnapshot state actorUserID actorStatus memo)

/-- The lookup of the actor and the loop over the endpoints. -/
def validateSQLiteMemoRelationEndpoints (state : State) (actorUserID : Int)
    (endpointIDs : List Int) : Except StoreError Unit := do
  let actor ← orElse (state.users.find? actorUserID) .MemoPermissionDenied
  endpointIDs.forM fun endpointID =>
    validateSQLiteMemoRelationEndpoint state actorUserID actor.rowStatus endpointID

end Memos.Store
