/-
Who may read a memo, asked of all memos at once.

A listing does not evaluate the read policy memo by memo: the store adds a predicate to
the query.  It is built from the caller's scope, and what it says about a row is given
here clause by clause, with the truth values of SQL: a comparison with the Space of a
memo in no Space is unknown, and a subquery over such comparisons finds nothing.

All arguments of the predicate are the user id of the scope, so which placeholder gets
which argument does not matter.
-/
import Memos.Access.Memo
import Memos.Lib.Kleene
import Memos.Store.Dependents
import Mathlib.Data.List.Sort

namespace Memos.Store

open Kleene

def equals {α : Type} [DecidableEq α] (a : α) (b : Option α) : Truth :=
  match b with
  | some b => .ofBool (decide (a = b))
  | none => .unknown

/-- `EXISTS (SELECT 1 FROM t WHERE p)`, which is never unknown. -/
def existsIn {Key Row : Type} {schema : Keyed.Schema Key Row} (t : Keyed.Table schema)
    (p : Row → Truth) : Truth :=
  .ofBool (t.any fun r => (p r).isTrue)

structure MemoAccessScope where
  userID : Option Int
  allowPublic : Bool
  allowProtected : Bool

def publicClauses (state : State) (memo : MemoRow) : List Truth :=
  [.ofBool (memo.visibility = .Public),
    (Truth.ofBool (memo.visibility = .SpaceAudience)).and
      (existsIn state.spaces fun publicSpace =>
        (equals publicSpace.id memo.spaceID).and (.ofBool (publicSpace.accessMode = .Public)))]

def authenticatedClauses (state : State) (allowProtected : Bool) (userID : Int) (memo : MemoRow) :
    List Truth :=
  [(Truth.ofBool (memo.rowStatus = .Archived)).and (.ofBool (memo.creatorID = userID)),
    (Truth.ofBool (memo.visibility = .Private)).and (.ofBool (memo.creatorID = userID))]
  ++ (if allowProtected then [Truth.ofBool (memo.visibility = .Protected)] else [])
  ++ [(Truth.ofBool (memo.visibility = .SpaceAudience)).and
      (existsIn state.members fun member =>
        ((equals member.spaceID memo.spaceID).and (.ofBool (member.userID = userID))).and
          ((Truth.ofBool (member.status = .Active)).and (.ofBool member.role.isActiveMember))),
    (Truth.ofBool (memo.visibility = .SpaceAudience)).and
      (existsIn state.spaces fun readableSpace =>
        (equals readableSpace.id memo.spaceID).and
          (.ofBool (readableSpace.accessMode = .Authenticated
            || readableSpace.accessMode = .Public)))]

/-- The row itself is consistent, whoever asks. -/
def validMemo (state : State) (memo : MemoRow) : Truth :=
  (Truth.ofBool (isValidVisibility memo.visibility)).and
    ((existsIn state.users fun validCreator =>
        (Truth.ofBool (validCreator.id = memo.creatorID)).and
          (.ofBool (validCreator.rowStatus = .Normal || validCreator.rowStatus = .Archived))).and
      ((Truth.ofBool (memo.visibility ≠ .SpaceAudience)).or
        ((Truth.ofBool memo.spaceID.isSome).and
          (existsIn state.spaces fun validSpace => equals validSpace.id memo.spaceID))))

def sqliteMemoAccessPredicate (state : State) (access : MemoAccessScope) (memo : MemoRow) : Truth :=
  let clauses :=
    (if access.allowPublic then publicClauses state memo else []) ++
    match access.userID with
    | none => []
    | some userID =>
        [(existsIn state.users fun accessUser =>
            (Truth.ofBool (accessUser.id = userID)).and
              (.ofBool (accessUser.rowStatus = .Normal))).and
          (Truth.any (authenticatedClauses state access.allowProtected userID memo))]
  if clauses.isEmpty then .fails
  else
    let validState :=
      match access.userID with
      | none => Truth.ofBool (memo.rowStatus = .Normal)
      | some userID =>
          (Truth.ofBool (memo.rowStatus = .Normal)).or
            ((Truth.ofBool (memo.rowStatus = .Archived)).and (.ofBool (memo.creatorID = userID)))
    (((Truth.any clauses).and (validMemo state memo)).and validState).and
      (.ofBool (memo.deletedTs = none))

/-! ### The scope of a caller -/

def newMemoAccessScope (currentUser : Option UserRow) (allowPublic : Bool) : MemoAccessScope where
  userID := currentUser.map UserRow.id
  allowPublic := allowPublic
  allowProtected := currentUser.isSome

def resolveMemoAccessScope (state : State) (authUserID : Int) :
    Except String (MemoAccessScope × Option UserRow) :=
  match Access.fetchCurrentUser state authUserID with
  | .error err => .error ("failed to get current user: " ++ err)
  | .ok currentUser =>
      let allowPublic := if currentUser.isNone then state.allowsAnonymousAccess else true
      .ok (newMemoAccessScope currentUser allowPublic, currentUser)

end Memos.Store

/-
Listing memos and relations.

`ListMemos` puts a query together from whatever its caller asks for, and all of it is a
condition on one row: on the row itself, on its creator and its Space, which are joined
to it, and on the relations that start at it.  A filter is rendered to such a condition
as well; what it may say is kept apart, and here it is what it answers about a joined
row.
-/

namespace Memos.Store

/-! ### Memos -/

/-- What a rendered filter answers about a memo, its creator and its Space. -/
abbrev MemoFilter := MemoRow → Option UserRow → Option SpaceRow → Bool

/-- Of a query, what the listings below ask for.  An empty list asks for nothing. -/
structure FindMemo where
  idList : List Int := []
  rowStatus : Option RowStatus := none
  creatorID : Option Int := none
  visibilityList : List Visibility := []
  access : Option MemoAccessScope := none
  excludeComments : Bool := false
  excludeUnsyncedSpaces : Bool := false
  filters : List MemoFilter := []
  orderByPinned : Bool := false
  orderByUpdatedTs : Bool := false
  orderByTimeAsc : Bool := false

/-- A comment is a memo with a relation to its parent. -/
def hasCommentRelation (db : Tables) (memo : MemoRow) : Bool :=
  db.relations.any fun r => decide (r.memoID = memo.id) && decide (r.type = .Comment)

/-- A memo in no Space, or in one that is gone, is in the main feed. -/
def inMainFeed (state : State) (memo : MemoRow) : Bool :=
  (memo.spaceID.bind state.spaces.find?).all SpaceRow.syncToMainFeed

/-- The `WHERE` clause; a deleted memo is never listed by these queries. -/
def FindMemo.selects (db : Tables) (find : FindMemo) (memo : MemoRow) : Bool :=
  decide (memo.deletedTs = none)
    && find.filters.all (fun filter =>
      filter memo (db.users.find? memo.creatorID) (memo.spaceID.bind db.spaces.find?))
    && (find.idList.isEmpty || find.idList.contains memo.id)
    && find.creatorID.all (fun creatorID => decide (memo.creatorID = creatorID))
    && find.rowStatus.all (fun rowStatus => decide (memo.rowStatus = rowStatus))
    && (find.visibilityList.isEmpty || find.visibilityList.contains memo.visibility)
    && find.access.all (fun access => (sqliteMemoAccessPredicate db.toState access memo).isTrue)
    && !(find.excludeComments && hasCommentRelation db memo)
    && !(find.excludeUnsyncedSpaces && !inMainFeed db.toState memo)

/-- The `ORDER BY` clause: whether the first memo comes before the second. -/
def FindMemo.before (find : FindMemo) (a b : MemoRow) : Bool :=
  let time := if find.orderByUpdatedTs then MemoRow.updatedTs else MemoRow.createdTs
  if find.orderByPinned && a.pinned ≠ b.pinned then a.pinned
  else if time a ≠ time b then
    if find.orderByTimeAsc then time a < time b else time b < time a
  else if find.orderByTimeAsc then a.id ≤ b.id
  else b.id ≤ a.id

def ListMemos (db : Tables) (find : FindMemo) : List MemoRow :=
  (db.memos.select (find.selects db)).insertionSort fun a b => find.before a b

theorem mem_ListMemos {db : Tables} {find : FindMemo} {memo : MemoRow} :
    memo ∈ ListMemos db find ↔ memo ∈ db.memos ∧ find.selects db memo = true := by
  unfold ListMemos
  rw [List.mem_insertionSort, Keyed.Table.mem_select]

/-- The parent of a comment that is listed with it: the first of its parents. -/
def parentUID (db : Tables) (memo : MemoRow) : Option String :=
  ((db.memos.select fun parent =>
    db.relations.any fun r => decide (r.memoID = memo.id) && decide (r.type = .Comment)
      && decide (r.relatedMemoID = parent.id)).insertionSort
    fun a b => a.id ≤ b.id).head?.map MemoRow.uid

/-! ### Relations -/

structure FindMemoRelation where
  sourceMemoIDList : List Int := []
  relatedMemoIDList : List Int := []

def memoLives (state : State) (id : Int) : Bool :=
  state.memos.any fun memo => decide (memo.deletedTs = none) && decide (memo.id = id)

def ListMemoRelations (db : Tables) (find : FindMemoRelation) : List MemoRelationRow :=
  (db.relations.select fun r =>
    memoLives db.toState r.memoID && memoLives db.toState r.relatedMemoID
      && (find.sourceMemoIDList.isEmpty || find.sourceMemoIDList.contains r.memoID)
      && (find.relatedMemoIDList.isEmpty || find.relatedMemoIDList.contains r.relatedMemoID)).insertionSort
    fun r s => s.memoID ≤ r.memoID

theorem mem_ListMemoRelations {db : Tables} {find : FindMemoRelation} {r : MemoRelationRow} :
    r ∈ ListMemoRelations db find ↔ r ∈ db.relations ∧
      (memoLives db.toState r.memoID && memoLives db.toState r.relatedMemoID
        && (find.sourceMemoIDList.isEmpty || find.sourceMemoIDList.contains r.memoID)
        && (find.relatedMemoIDList.isEmpty || find.relatedMemoIDList.contains r.relatedMemoID))
          = true := by
  unfold ListMemoRelations
  rw [List.mem_insertionSort, Keyed.Table.mem_select]

end Memos.Store
