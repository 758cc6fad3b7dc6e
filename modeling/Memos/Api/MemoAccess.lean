/-
Who may read a memo, asked by the API.

Before the read policy is asked, the API withholds a memo from everybody but the
instance's administrators while it is quarantined, from everybody but its author while
it is a draft, and from those whom its category excludes.  The categories are one
setting of the instance, a JSON text that is parsed on every request; the parser and the
table of lower case letters belong to the standard library and are parameters.
-/
import Memos.Access.Memo
import Memos.Api.ContentModeration

namespace Memos.Api

open Store Access

/-! ### Statuses -/

inductive Code where
  | InvalidArgument
  | NotFound
  | PermissionDenied
  | FailedPrecondition
  | Internal
  | Unauthenticated
deriving DecidableEq

structure Status where
  code : Code
  message : String
deriving DecidableEq

/-! ### Categories -/

/-- Of a category, what decides who may see its memos. -/
structure InstanceMemoCategory where
  slug : String
  access : String

structure Library where
  letters : LowerCase
  /-- `json.Unmarshal` of a list of categories. -/
  unmarshalCategories : String → Except String (List InstanceMemoCategory)

def isSuperUser (user : Option UserRow) : Bool := user.any fun u => decide (u.role = .Admin)

def parseInstanceMemoCategories (library : Library) (raw : String) :
    Except String (List InstanceMemoCategory) :=
  let raw := trimSpace raw.toList
  if raw.isEmpty then .ok []
  else
    match library.unmarshalCategories (String.ofList raw) with
    | .error e => .error ("failed to parse memo categories json: " ++ e)
    | .ok categories => .ok categories

def memoCategoryAllowsUser (library : Library) (category : InstanceMemoCategory)
    (user : Option UserRow) : Bool :=
  let access := (trimSpace category.access.toList).map library.letters.toLower
  if access = "admin".toList then isSuperUser user
  else if access = "authenticated".toList then user.isSome
  else true

/-- The categories whose memos the user may not see, from the setting. -/
def inaccessibleMemoCategories (library : Library) (memoCategoriesJson : String)
    (user : Option UserRow) : Except String (List String) :=
  if isSuperUser user then .ok []
  else
    match parseInstanceMemoCategories library memoCategoriesJson with
    | .error e => .error e
    | .ok categories =>
        .ok ((categories.filter fun category =>
          category.slug ≠ "" && !memoCategoryAllowsUser library category user).map
            InstanceMemoCategory.slug)

def memoVisibleInCategories (memo : MemoRow) (denied : List String) : Bool :=
  memo.payload.category = "" || !denied.contains memo.payload.category

/-! ### Reading a memo -/

def memoIsUnpublished (memo : MemoRow) (now : Int) : Bool :=
  memo.payload.draft && (memo.payload.publishTs = 0 || now < memo.payload.publishTs)

def memoAccessDecisionError (decision : MemoReadDecision) : Except Status Unit :=
  match decision.denial with
  | .None => .ok ()
  | .NotFound => .error ⟨.NotFound, "memo not found"⟩
  | .Unauthenticated => .error ⟨.Unauthenticated, "user not authenticated"⟩
  | .Permission => .error ⟨.PermissionDenied, "permission denied"⟩

/-- `buildMemoReadContext`, for a memo the caller has fetched. -/
def buildMemoReadContext (state : State) (authUserID : Int) (memo : Option MemoRow)
    (sharedMemoID : Option Int) : Except Status MemoReadContext :=
  match fetchCurrentUser state authUserID with
  | .error _ => .error ⟨.Internal, "failed to get user"⟩
  | .ok viewer =>
      if memo.isNone then .error ⟨.NotFound, "memo not found"⟩
      else .ok (ResolveMemoReadContext state memo viewer (allowAnonymous state viewer) sharedMemoID)

def checkMemoReadAccess (library : Library) (state : State) (memoCategoriesJson : String)
    (now : Int) (authUserID : Int) (memo : Option MemoRow) : Except Status Unit :=
  match buildMemoReadContext state authUserID memo none, memo with
  | .error e, _ => .error e
  | .ok _, none => .error ⟨.NotFound, "memo not found"⟩
  | .ok readContext, some memo =>
      if isSuperUser readContext.viewer then .ok ()
      else if memo.payload.quarantined then .error ⟨.NotFound, "memo not found"⟩
      else if memoIsUnpublished memo now
          && readContext.viewer.all (fun viewer => decide (memo.creatorID ≠ viewer.id)) then
        .error ⟨.NotFound, "memo not found"⟩
      else
        match inaccessibleMemoCategories library memoCategoriesJson readContext.viewer with
        | .error _ => .error ⟨.Internal, "failed to load memo category access"⟩
        | .ok deniedCategories =>
            if !memoVisibleInCategories memo deniedCategories then
              .error ⟨.NotFound, "memo not found"⟩
            else memoAccessDecisionError (CheckMemoReadContext readContext)

end Memos.Api

/-
Which memos the API shows in a collection.

A listing asks the database first, with the audience of each memo as a predicate of the
query.  What the payload says about a memo is looked at afterwards, row by row: the
database reads a field that an old payload has not got as unknown, and would drop the
row.
-/

namespace Memos.Api

open Store Access

/-- Creators manage their own hidden memos and drafts, administrators see everything. -/
def memoVisibleInCollection (now : Int) (memo : MemoRow) (user : Option UserRow) : Bool :=
  if isSuperUser user then true
  else if memo.payload.quarantined then false
  else if memoIsUnpublished memo now then user.any fun user => decide (memo.creatorID = user.id)
  else if !memo.payload.hidden then true
  else user.any fun user => decide (memo.creatorID = user.id)

/-- In a listing by author nobody else's anonymous memos are shown. -/
def memoVisibleInCollectionScope (now : Int) (memo : MemoRow) (user : Option UserRow)
    (hideAnonymousOwnership : Bool) : Bool :=
  if hideAnonymousOwnership && memo.payload.anonymous && !isSuperUser user then
    user.any fun user => decide (memo.creatorID = user.id)
  else memoVisibleInCollection now memo user

end Memos.Api
