/-
Reading a memo by its name, by a share token, and its poll.

A share token is a second entrance.  Whoever has it reads the memo whatever its audience
is, without an account; the memo is found through the share and not by its name, and the
read policy is told which memo the token is for.
-/
import Memos.Api.MemoMessage
import Memos.Fileserver.Attachment

namespace Memos.Api

open Store Access Fileserver

/-- What a handler answers instead of a response: a status, or an error without a code. -/
inductive HandlerError where
  | status (status : Status)
  | other (message : String)

def orStatus {α : Type} : Except Status α → Except HandlerError α := Except.mapError .status

/-- A message, or the error for a memo without a creator. -/
def orConvertError {α : Type} (missing : Status) :
    Except ConvertError α → Except HandlerError α :=
  Except.mapError fun
    | .memoCreatorNotFound => .status missing
    | .other message => .other ("failed to convert memo: " ++ message)

section Service

variable (service : APIV1Service) (conversion : Conversion) (db : Tables) (now authUserID : Int)

def readNamedMemo (name : String) : Except Status MemoRow := do
  let memoUID ← refused .InvalidArgument "invalid memo name: " (service.ExtractMemoUIDFromName name)
  let memo ← orRefuse (getMemo db.toState memoUID) .NotFound "memo not found"
  checkMemoReadAccess service.library db.toState service.memoCategoriesJson now authUserID (some memo)
  return memo

def GetMemoPoll (name deviceID : String) : Except Status (Option PollMessage) := do
  let memo ← readNamedMemo service db now authUserID name
  let poll ← orRefuse memo.payload.poll .NotFound "poll not found"
  let viewer ← refused .Internal "failed to get current user: "
    (fetchCurrentUser db.toState authUserID)
  let deviceID := if viewer.isNone && poll.voterType = "ANYONE" then
    String.ofList (trimSpace deviceID.toList) else ""
  refused .Internal "failed to build poll: "
    (convertPoll conversion db memo (ListAttachments db [memo.id]) viewer deviceID)

/-! ### Shares -/

def getActiveMemoShare (shareID : String) : Except Status MemoShareRow := do
  let share ← orRefuse (getMemoShare db.toState shareID) .NotFound "not found"
  refuseIf (isMemoShareExpired share now) .NotFound "not found"
  return share

/-- The memo behind a token, if the token opens it. -/
def openSharedMemo (shareToken : String) : Except Status MemoRow := do
  let share ← getActiveMemoShare db now shareToken
  let memo ← orRefuse (getMemoByID db.toState share.memoID) .NotFound "not found"
  refuseIf (memo.rowStatus ≠ .Normal || memo.visibility = .SpaceAudience) .NotFound "not found"
  match buildMemoReadContext db.toState authUserID (some memo) (some share.memoID) with
  | .error _ => .error ⟨.NotFound, "not found"⟩
  | .ok readContext => do
      refuseIf (!(CheckMemoReadContext readContext).allowed) .NotFound "not found"
      return memo

/-- The token opens the memo, and neither its parent nor its relations. -/
def GetSharedMemo (shareToken : String) : Except HandlerError MemoMessage := do
  let memo ← orStatus (openSharedMemo db now authUserID shareToken)
  let message ← orConvertError ⟨.NotFound, "not found"⟩
    (convertMemoFromStore service conversion db now authUserID memo (ListReactions db [memo.id])
      (ListAttachments db [memo.id]) [])
  return { message with parent := none }

end Service

end Memos.Api
