/-
Who may fetch an attachment.

The file route answers a browser, which sends a cookie or a token or nothing, and it
serves the file of a memo to whoever the read policy lets read the memo.  It asks the
policy itself, first for a visitor and then for the signed-in user; it does not go
through the API.

Who the request is signed in as is for the authenticator to say, and is a parameter
here, as is the playlist of the site.
-/
import Memos.Access.Memo
import Memos.Store.Dependents

namespace Memos.Fileserver

open Store Access

structure HTTPError where
  code : Nat
  message : String
deriving DecidableEq

structure Request where
  /-- The user the authenticator finds behind the headers of the request. -/
  currentUser : Except String (Option UserRow)
  shareToken : String

/-- `GetMemo` by id; by default a deleted memo is not found. -/
def getMemoByID (state : State) (id : Int) : Option MemoRow :=
  (state.memos.find? id).filter fun memo => decide (memo.deletedTs = none)

/-- `GetMemoShare`: the shares of deleted memos are not listed. -/
def getMemoShare (state : State) (uid : String) : Option MemoShareRow :=
  (state.shares.select fun share =>
    (state.memos.any fun memo => decide (memo.deletedTs = none) && decide (memo.id = share.memoID))
      && decide (share.uid = uid)).head?

def isMemoShareExpired (share : MemoShareRow) (now : Int) : Bool :=
  share.expiresTs.any fun expires => decide (expires < now)

/-- The memo that the token of the request was made for. -/
def sharedMemoID (state : State) (now : Int) (shareToken : String) : Option Int :=
  if shareToken = "" then none
  else ((getMemoShare state shareToken).filter fun share => !isMemoShareExpired share now).map
    MemoShareRow.memoID

def decisionError (decision : MemoReadDecision) : Except HTTPError MemoReadClass :=
  match decision.denial with
  | .None => .ok decision.readClass
  | .NotFound => .error ⟨404, "memo not found"⟩
  | .Unauthenticated => .error ⟨401, "unauthorized access"⟩
  | .Permission => .error ⟨403, "forbidden access"⟩

/-- An attachment of no memo belongs to its creator, or to the site's playlist. -/
def checkUnlinkedAttachment (publicMusic : String → Except String Bool) (request : Request)
    (attachment : AttachmentRow) : Except HTTPError MemoReadClass :=
  let music := if attachment.type.startsWith "audio/" then publicMusic attachment.uid else .ok false
  match music with
  | .error _ => .error ⟨500, "failed to check site music attachment"⟩
  | .ok true => .ok .Public
  | .ok false =>
      match request.currentUser with
      | .error _ => .error ⟨500, "failed to get current user"⟩
      | .ok none => .error ⟨401, "unauthorized access"⟩
      | .ok (some user) =>
          if user.id ≠ attachment.creatorID then .error ⟨403, "forbidden access"⟩ else .ok .Private

def checkAttachmentPermission (publicMusic : String → Except String Bool) (state : State)
    (now : Int) (request : Request) (attachment : AttachmentRow) :
    Except HTTPError MemoReadClass :=
  match attachment.memoID with
  | none => checkUnlinkedAttachment publicMusic request attachment
  | some memoID =>
      match getMemoByID state memoID with
      | none => .error ⟨404, "memo not found"⟩
      | some memo =>
          let allowAnonymous := state.allowsAnonymousAccess
          let sharedMemoID := sharedMemoID state now request.shareToken
          let facts := ResolveMemoReadFacts state (some memo)
          let anonymousDecision :=
            CheckMemoReadContext (facts.withViewer state none allowAnonymous sharedMemoID)
          -- Decided first, so that an expired cookie cannot spoil a visitor's request.
          if anonymousDecision.allowed then .ok anonymousDecision.readClass
          else
            match request.currentUser with
            | .error _ => .error ⟨500, "failed to get current user"⟩
            | .ok user =>
                decisionError
                  (CheckMemoReadContext (facts.withViewer state user allowAnonymous sharedMemoID))

end Memos.Fileserver
