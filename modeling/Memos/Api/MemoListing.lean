/-
Which memos `ListMemos` lists.

A request may order and filter, and asks for a page.  The order is a short text that is
parsed here.  A filter belongs to the filter engine, of which two things matter: the
Spaces that the filter names, each of which the caller must be able to read, and what the
filter answers about a memo.  Some decisions are taken on the text of the filter, whatever
it parses to.

What the rows become in the response is not said here.
-/
import Memos.Api.MemoRequest
import Memos.Api.Paging
import Memos.Store.MemoList

namespace Memos.Api

open Store Access

/-! ### Requests -/

structure MemoListingRequest where
  state : ProtoState := .Unspecified
  orderBy : String := ""
  filter : String := ""
  showTotalSize : Bool := false
  page : ListMemosRequest := ⟨0, 0, ""⟩

/-- The engine that compiles and renders filters. -/
structure FilterEngine where
  /-- The names of Spaces in the filter, or why it is not accepted. -/
  spaceNames : String → Except String (List String)
  selects : String → MemoFilter

def contains (text sub : String) : Bool := text.toList.tails.any fun rest => sub.toList.isPrefixOf rest

/-! ### The order -/

structure MemoOrder where
  find : FindMemo
  hasPinned : Bool := false
  hasExplicitTimeField : Bool := false

def parseOrderField (letters : LowerCase) (order : MemoOrder) (field : List Char) :
    Except String MemoOrder :=
  match fieldsFunc isSpace (trimSpace field) with
  | [] => .ok order
  | fieldName :: rest =>
      let fieldDirection := match rest with
        | [] => "desc".toList
        | direction :: _ => direction.map letters.toLower
      if fieldDirection ≠ "asc".toList && fieldDirection ≠ "desc".toList then
        .error ("invalid order direction: " ++ String.ofList (rest.headD [])
          ++ ", must be 'asc' or 'desc'")
      else
        let asc := decide (fieldDirection = "asc".toList)
        let find := order.find
        if fieldName = "pinned".toList then
          .ok { order with hasPinned := true, find := { find with orderByPinned := true } }
        else if fieldName = "create_time".toList || fieldName = "name".toList then
          .ok
            { order with
              hasExplicitTimeField := true
              find := if order.hasExplicitTimeField then find else { find with orderByTimeAsc := asc } }
        else if fieldName = "update_time".toList then
          .ok
            { order with
              hasExplicitTimeField := true
              find := if order.hasExplicitTimeField then find
                else { find with orderByUpdatedTs := true, orderByTimeAsc := asc } }
        else
          .error ("unsupported order field: " ++ String.ofList fieldName
            ++ ", supported fields are: pinned, create_time, update_time, name")

def parseMemoOrderBy (letters : LowerCase) (orderBy : String) (find : FindMemo) :
    Except String FindMemo := do
  if (trimSpace orderBy.toList).isEmpty then .error "empty order_by"
  else
    let fields := orderBy.toList.splitOn ','
    let order ← fields.foldlM (parseOrderField letters) { find }
    if order.hasPinned && !order.find.orderByUpdatedTs && fields.length = 1 then
      return { order.find with orderByTimeAsc := false }
    else return order.find

/-! ### The filter -/

/-- A Space that a filter names must be readable, as a whole or to its members. -/
def APIV1Service.resolveReadableSpaceByName (service : APIV1Service) (state : State)
    (name : String) (user : Option UserRow) : Except Status SpaceRow := do
  let spaceUID ← refused .InvalidArgument "invalid space name: "
    (service.ExtractSpaceUIDFromName name)
  let space ← orRefuse (getSpaceByUIDOrURLSlug state spaceUID) .NotFound "space not found"
  if space.accessMode = .Public then return space
  match user with
  | none =>
      if space.accessMode = .Authenticated then .error ⟨.Unauthenticated, "user not authenticated"⟩
      else .error ⟨.NotFound, "space not found"⟩
  | some user =>
      if space.accessMode = .Authenticated then return space
      else if !isActiveSpaceMember state space.id user.id then .error ⟨.NotFound, "space not found"⟩
      else return space

def APIV1Service.validateMemoFilterForUser (service : APIV1Service) (engine : FilterEngine)
    (state : State) (filterText : String) (user : Option UserRow) : Except Status Unit := do
  let names ← refused .InvalidArgument "invalid filter: " (engine.spaceNames filterText)
  names.forM fun name => do
    let _ ← service.resolveReadableSpaceByName state name user
    return ()

def APIV1Service.orderListing (service : APIV1Service) (orderBy : String) (find : FindMemo) :
    Except Status FindMemo :=
  if orderBy ≠ "" then
    refused .InvalidArgument "invalid order_by: "
      (parseMemoOrderBy service.library.letters orderBy find)
  else .ok find

def APIV1Service.filterListing (service : APIV1Service) (engine : FilterEngine) (state : State)
    (filter : String) (currentUser : Option UserRow) (find : FindMemo) : Except Status FindMemo := do
  if filter ≠ "" then
    service.validateMemoFilterForUser engine state filter currentUser
    return { find with filters := find.filters ++ [engine.selects filter] }
  else return find

/-! ### The listing -/

/-- What a listing asks of the store, and what it asks of the rows afterwards. -/
structure MemoListing where
  find : FindMemo
  currentUser : Option UserRow
  hideAnonymousOwnership : Bool
  deniedCategories : List String

def MemoListing.visible (listing : MemoListing) (now : Int) (memo : MemoRow) : Bool :=
  memoVisibleInCollectionScope now memo listing.currentUser listing.hideAnonymousOwnership
    && memoVisibleInCategories memo listing.deniedCategories

/-- `creator_id == N || visibility in ["PUBLIC", "PROTECTED", "SPACE"]`. -/
def ownOrShared (userID : Int) : MemoFilter := fun memo _ _ =>
  decide (memo.creatorID = userID) || memo.visibility = .Public || memo.visibility = .Protected
    || memo.visibility = .SpaceAudience

/-- The audiences a listing adds to the scope. -/
def listingAudience (currentUser : Option UserRow) (find : FindMemo) : FindMemo :=
  match currentUser with
  | none => { find with visibilityList := [.Public, .SpaceAudience] }
  | some user =>
      if isSuperUser currentUser then find
      else
        match find.creatorID with
        | none => { find with filters := find.filters ++ [ownOrShared user.id] }
        | some creatorID =>
            if creatorID ≠ user.id then { find with visibilityList := [.Public, .Protected] }
            else find

/-- What `ListMemos` does before it asks the store.  A visitor's listing of archived memos
has nothing to ask. -/
def APIV1Service.prepareListMemos (service : APIV1Service) (engine : FilterEngine) (db : Tables)
    (authUserID : Int) (request : MemoListingRequest) : Except Status (Option MemoListing) := do
  let (accessScope, currentUser) ←
    match resolveMemoAccessScope db.toState authUserID with
    | .error e => .error ⟨.Internal, e⟩
    | .ok resolved => .ok resolved
  refuseIf (currentUser.isNone && !accessScope.allowPublic) .Unauthenticated "user not authenticated"
  let archived := decide (request.state = .Archived)
  if archived && currentUser.isNone then return none
  let find : FindMemo :=
    { excludeComments := true
      access := some accessScope
      rowStatus := some (if archived then .Archived else .Normal)
      creatorID := if archived then currentUser.map UserRow.id else none }
  let ordered ← service.orderListing request.orderBy find
  let filtered ← service.filterListing engine db.toState request.filter currentUser ordered
  let excludeUnsyncedSpaces :=
    !isSuperUser currentUser && !contains request.filter "space == \"spaces/"
  let deniedCategories ← refused .Internal "failed to load memo category access: "
    (inaccessibleMemoCategories service.library service.memoCategoriesJson currentUser)
  return some
    { find := listingAudience currentUser { filtered with excludeUnsyncedSpaces }
      currentUser
      hideAnonymousOwnership := contains request.filter "creator =="
      deniedCategories }

def MemoListing.page (listing : MemoListing) (db : Tables) (now : Int)
    (visibleOffset visibleLimit : Nat) : List MemoRow :=
  listMemoCollectionPage serviceChunkSize (listing.visible now) visibleOffset visibleLimit
    (ListMemos db listing.find)

end Memos.Api
