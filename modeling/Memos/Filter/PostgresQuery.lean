/-
Appending rendered filters to a query.

`AppendConditions` of `internal/filter/helpers.go`, on filters already parsed: each is
rendered, skipped when it restricts nothing, and otherwise put in parentheses behind
the clauses the query has, its arguments behind the arguments.

SQLite and MySQL bind by position: the first `?` of the text gets the first argument,
and so on.  A statement or a query is *aligned* when that is also the argument each
`?` was emitted for.
-/
import Memos.Filter.Semantics

namespace Memos.Filter

open Sql

/-- The argument positions of a statement's placeholders, from left to right. -/
def Statement.holes (s : Statement) : List Nat :=
  match s.sql with
  | none => []
  | some p => p.holes

/-- There are as many question marks as arguments, and the `i`-th is the one emitted
for the `i`-th argument. -/
structure Statement.Aligned (R : Renderer) (s : Statement) : Prop where
  counts : questionMarks (s.text R) = s.args.length
  inOrder : s.holes = List.range s.args.length

/-- A clause of a `WHERE`, and the number of arguments bound before it. -/
structure Clause where
  offset : Nat
  condition : Pred

/-- The `WHERE` part of a query: its clauses, joined by `AND`, and its arguments. -/
structure Query where
  clauses : List Clause := []
  args : List Value := []

def Clause.holes (c : Clause) : List Nat := c.condition.holes.map (c.offset + ·)

def Query.holes (q : Query) : List Nat := q.clauses.flatMap Clause.holes

/-- The `i`-th placeholder of the query is the one emitted for its `i`-th argument, and
there are no further ones on either side. -/
def Query.Aligned (q : Query) : Prop := q.holes = List.range q.args.length

/-- Append a clause with its arguments, as every condition of a listing query does. -/
def Query.append (q : Query) (condition : Pred) (args : List Value) : Query where
  clauses := q.clauses ++ [{ offset := q.args.length, condition := condition }]
  args := q.args ++ args

def appendConditions (S : Schema) (d : Dialect) : List Condition → Query → Except String Query
  | [], q => .ok q
  | cond :: rest, q => do
    let stmt ← Renderer.render ⟨S, d, q.args.length⟩ cond
    match stmt.sql with
    | none => appendConditions S d rest q
    | some sql => appendConditions S d rest (q.append (.paren sql) stmt.args)

end Memos.Filter

/-
The queries for memos and relations on Postgres.

`ListMemos` and `ListMemoRelations` of `store/db/postgres`, up to the text they send.  The
clauses of a query share one list of arguments: each clause writes the number of the place
at which its argument is appended, and a filter is rendered with the number of arguments
bound before it.

A text is a list of pieces, so that its placeholders can be told from the rest; white space
is not kept.  Filters are already parsed.
-/

namespace Memos.Filter.Postgres

open Sql

inductive Piece where
  | text (s : String)
  | placeholder (n : Nat)
deriving DecidableEq

def Piece.toText : Piece → String
  | .text s => s
  | .placeholder n => "$" ++ toString n

def Piece.ofSql (offset : Nat) : Sql.Piece → Piece
  | .text s => .text s.text
  | .hole k => .placeholder (offset + (k + 1))

def join {α : Type} (separator : α) (parts : List (List α)) : List α :=
  (parts.intersperse [separator]).flatten

structure Query where
  clauses : List (List Piece) := []
  args : List Value := []

def Query.clause (q : Query) (text : String) : Query :=
  { q with clauses := q.clauses ++ [[.text text]] }

def bindArg (args : List Value) (value : Value) : Piece × List Value :=
  (.placeholder (args.length + 1), args ++ [value])

def Query.compare (q : Query) (before : String) (value : Value) (after : String) : Query :=
  let (holder, args) := bindArg q.args value
  { clauses := q.clauses ++ [[.text before, holder, .text after]], args }

def holders : List Value → List Value → List Piece × List Value
  | [], args => ([], args)
  | value :: values, args =>
      let (holder, args) := bindArg args value
      let (rest, args) := holders values args
      (holder :: rest, args)

def Query.compareIn (q : Query) (before : String) (values : List Value) : Query :=
  if values = [] then q
  else
    let (holders, args) := holders values q.args
    { clauses := q.clauses ++ [[.text before] ++ join (.text ", ") (holders.map ([·]))
        ++ [.text ")"]]
      args }

def Query.compare? (q : Query) (before : String) (value : Option Value) (after : String) : Query :=
  match value with
  | none => q
  | some value => q.compare before value after

def Query.statement (q : Query) (before after : String) (s : Statement) : Query :=
  match s.sql with
  | none => q
  | some sql =>
      { clauses := q.clauses ++ [[.text before] ++ sql.pieces.map (Piece.ofSql q.args.length)
          ++ [.text after]]
        args := q.args ++ s.args }

def Query.compile (q : Query) (S : Schema) (filter : Condition) : Except String Statement :=
  Renderer.render ⟨S, .postgres, q.args.length⟩ filter

def Query.filters (S : Schema) : List Condition → Query → Except String Query
  | [], q => .ok q
  | filter :: rest, q => do
      let s ← q.compile S filter
      Query.filters S rest (q.statement "(" ")" s)

/-! ### The access predicate -/

structure MemoAccessScope where
  userID : Option Int
  allowPublic : Bool
  allowProtected : Bool

section Access

variable (memoAlias memberAlias : String)

def publicClauses : List (List Piece) :=
  [[.text (memoAlias ++ ".visibility = 'PUBLIC'")],
    [.text ("(" ++ memoAlias ++ ".visibility = 'SPACE' AND EXISTS (SELECT 1 FROM space AS public_space WHERE public_space.id = "
      ++ memoAlias ++ ".space_id AND public_space.access_mode = 'PUBLIC'))")]]

def authenticatedClauses (allowProtected : Bool)
    (archivedAuthorHolder privateHolder memberHolder : Piece) : List (List Piece) :=
  [[.text ("(" ++ memoAlias ++ ".row_status = 'ARCHIVED' AND " ++ memoAlias ++ ".creator_id = "),
      archivedAuthorHolder, .text ")"],
    [.text ("(" ++ memoAlias ++ ".visibility = 'PRIVATE' AND " ++ memoAlias ++ ".creator_id = "),
      privateHolder, .text ")"]]
    ++ (if allowProtected then [[.text (memoAlias ++ ".visibility = 'PROTECTED'")]] else [])
    ++ [[.text ("(" ++ memoAlias ++ ".visibility = 'SPACE' AND EXISTS (SELECT 1 FROM space_member AS "
        ++ memberAlias ++ " WHERE " ++ memberAlias ++ ".space_id = " ++ memoAlias ++ ".space_id AND "
        ++ memberAlias ++ ".user_id = "),
      memberHolder,
      .text (" AND " ++ memberAlias ++ ".status = 'ACTIVE' AND " ++ memberAlias
        ++ ".role IN ('ADMIN', 'USER')))")],
    [.text ("(" ++ memoAlias ++ ".visibility = 'SPACE' AND EXISTS (SELECT 1 FROM space AS readable_space"
      ++ " WHERE readable_space.id = " ++ memoAlias
      ++ ".space_id AND readable_space.access_mode IN ('AUTHENTICATED', 'PUBLIC')))")]]

def validMemo : String :=
  "(" ++ memoAlias ++ ".visibility IN ('PUBLIC', 'PROTECTED', 'PRIVATE', 'SPACE')"
    ++ " AND EXISTS (SELECT 1 FROM \"user\" AS valid_creator WHERE valid_creator.id = " ++ memoAlias
    ++ ".creator_id AND valid_creator.row_status IN ('NORMAL', 'ARCHIVED'))"
    ++ " AND (" ++ memoAlias ++ ".visibility <> 'SPACE' OR (" ++ memoAlias ++ ".space_id IS NOT NULL"
    ++ " AND EXISTS (SELECT 1 FROM space AS valid_space WHERE valid_space.id = " ++ memoAlias ++ ".space_id))))"

def postgresMemoAccessPredicate (access : MemoAccessScope) (args : List Value) :
    List Piece × List Value :=
  let clauses := if access.allowPublic then publicClauses memoAlias else []
  let normal := memoAlias ++ ".row_status = 'NORMAL'"
  let live := " AND " ++ memoAlias ++ ".deleted_ts IS NULL"
  match access.userID with
  | none =>
      if clauses = [] then ([.text "1 = 0"], args)
      else
        ([.text "("] ++ join (.text " OR ") clauses
          ++ [.text (") AND " ++ validMemo memoAlias ++ " AND " ++ normal ++ live)], args)
  | some userID =>
      let (activeHolder, args) := bindArg args (.int userID)
      let (archivedAuthorHolder, args) := bindArg args (.int userID)
      let (privateHolder, args) := bindArg args (.int userID)
      let (memberHolder, args) := bindArg args (.int userID)
      let authenticated := authenticatedClauses memoAlias memberAlias access.allowProtected
        archivedAuthorHolder privateHolder memberHolder
      let clauses := clauses ++
        [[.text "(EXISTS (SELECT 1 FROM \"user\" AS access_user WHERE access_user.id = ", activeHolder,
          .text " AND access_user.row_status = 'NORMAL') AND ("] ++ join (.text " OR ") authenticated
          ++ [.text "))"]]
      let (targetStateHolder, args) := bindArg args (.int userID)
      ([.text "("] ++ join (.text " OR ") clauses
        ++ [.text (") AND " ++ validMemo memoAlias ++ " AND (" ++ normal ++ " OR (" ++ memoAlias
            ++ ".row_status = 'ARCHIVED' AND " ++ memoAlias ++ ".creator_id = "),
          targetStateHolder, .text ("))" ++ live)], args)

end Access

/-! ### Memos -/

/-- `DeletedFilter`; the zero value leaves deleted memos out. -/
inductive DeletedFilter where
  | live
  | OnlyDeleted
  | IncludeDeleted
deriving DecidableEq

structure FindMemo where
  deleted : DeletedFilter := .live
  deletedBeforeTs : Option Int := none
  afterID : Option Int := none
  orderByID : Bool := false
  id : Option Int := none
  uid : Option String := none
  idList : List Int := []
  uidList : List String := []
  rowStatus : Option String := none
  creatorID : Option Int := none
  visibilityList : List String := []
  commentContextMemoID : Option Int := none
  access : Option MemoAccessScope := none
  excludeContent : Bool := false
  excludeComments : Bool := false
  onlyComments : Bool := false
  excludeUnsyncedSpaces : Bool := false
  filters : List Condition := []
  limit : Option Int := none
  offset : Option Int := none
  orderByPinned : Bool := false
  orderByUpdatedTs : Bool := false
  orderByTimeAsc : Bool := false

def Query.clauseIf (q : Query) (condition : Bool) (text : String) : Query :=
  if condition then q.clause text else q

def Query.access (q : Query) (access : Option MemoAccessScope) : Query :=
  match access with
  | none => q
  | some access =>
      let (predicate, args) := postgresMemoAccessPredicate "memo" "access_member" access q.args
      { clauses := q.clauses ++ [predicate], args }

def inContext : String :=
  "EXISTS (SELECT 1 FROM memo_relation AS comment_context WHERE comment_context.memo_id = memo.id AND comment_context.related_memo_id = "

def isComment : String :=
  "EXISTS (SELECT 1 FROM memo_relation AS comment_relation WHERE comment_relation.memo_id = memo.id AND comment_relation.type = 'COMMENT')"

def inMainFeed : String :=
  "(memo.space_id IS NULL OR NOT EXISTS (SELECT 1 FROM space AS placed_space WHERE placed_space.id = memo.space_id) OR EXISTS (SELECT 1 FROM space AS feed_space WHERE feed_space.id = memo.space_id AND feed_space.sync_to_main_feed = TRUE))"

def FindMemo.start (find : FindMemo) : Query :=
  let q : Query := { clauses := [[.text "1 = 1"]] }
  let q := match find.deleted with
    | .OnlyDeleted => q.clause "memo.deleted_ts IS NOT NULL"
    | .IncludeDeleted => q
    | .live => q.clause "memo.deleted_ts IS NULL"
  let q := q.compare? "memo.deleted_ts < " (find.deletedBeforeTs.map .int) ""
  q.compare? "memo.id > " (find.afterID.map .int) ""

def FindMemo.finish (find : FindMemo) (q : Query) : Query :=
  let q := q.compare? "memo.id = " (find.id.map .int) ""
  let q := q.compareIn "memo.id IN (" (find.idList.map .int)
  let q := q.compare? "memo.uid = " (find.uid.map .text) ""
  let q := q.compareIn "memo.uid IN (" (find.uidList.map .text)
  let q := q.compare? "memo.creator_id = " (find.creatorID.map .int) ""
  let q := q.compare? "memo.row_status = " (find.rowStatus.map .text) ""
  let q := q.compareIn "memo.visibility in (" (find.visibilityList.map .text)
  let q := q.compare? inContext (find.commentContextMemoID.map .int)
    " AND comment_context.type = 'COMMENT')"
  let q := q.access find.access
  let q := q.clauseIf find.excludeComments ("NOT " ++ isComment)
  let q := q.clauseIf find.onlyComments isComment
  q.clauseIf find.excludeUnsyncedSpaces inMainFeed

/-- `LIMIT` and `OFFSET` are numbers in the text. -/
def paging (limit offset : Option Int) : List Piece :=
  match limit with
  | none => []
  | some limit => .text (" LIMIT " ++ toString limit) :: match offset with
    | none => []
    | some offset => [.text (" OFFSET " ++ toString offset)]

def FindMemo.fields (find : FindMemo) : String :=
  "memo.id AS id, memo.uid AS uid, memo.creator_id AS creator_id, memo.created_ts AS created_ts, memo.updated_ts AS updated_ts, memo.row_status AS row_status, memo.visibility AS visibility, memo.pinned AS pinned, memo.view_count AS view_count, memo.payload AS payload, memo.space_id AS space_id, (SELECT parent_memo.uid FROM memo_relation AS parent_relation JOIN memo AS parent_memo ON parent_memo.id = parent_relation.related_memo_id WHERE parent_relation.memo_id = memo.id AND parent_relation.type = 'COMMENT' ORDER BY parent_memo.id LIMIT 1) AS parent_uid, memo.deleted_ts"
    ++ if find.excludeContent then "" else ", memo.content AS content"

def FindMemo.order (find : FindMemo) : String :=
  let order := if find.orderByTimeAsc then "ASC" else "DESC"
  if find.orderByID then "memo.id ASC"
  else (if find.orderByPinned then "pinned DESC, " else "")
    ++ (if find.orderByUpdatedTs then "updated_ts " else "created_ts ") ++ order ++ ", id " ++ order

def FindMemo.selectFrom (find : FindMemo) : String :=
  "SELECT " ++ find.fields ++ " FROM memo LEFT JOIN \"user\" AS memo_creator ON memo.creator_id = memo_creator.id LEFT JOIN space AS memo_space ON memo.space_id = memo_space.id WHERE "

structure Sent where
  sql : List Piece
  args : List Value

def ListMemos (find : FindMemo) : Except String Sent := do
  let q ← Query.filters memoSchema find.filters find.start
  let q := find.finish q
  return {
    sql := [.text find.selectFrom] ++ join (.text " AND ") q.clauses
      ++ [.text (" ORDER BY " ++ find.order)] ++ paging find.limit find.offset
    args := q.args }

/-! ### Relations -/

structure FindMemoRelation where
  memoID : Option Int := none
  relatedMemoID : Option Int := none
  type : Option String := none
  memoFilter : Option Condition := none
  sourceMemoRowStatus : Option String := none
  memoIDList : List Int := []
  sourceMemoIDList : List Int := []
  relatedMemoIDList : List Int := []
  orderByMemoIDAsc : Bool := false
  limit : Option Int := none
  offset : Option Int := none

def Query.eitherEnd (q : Query) (values : List Value) : Query :=
  if values = [] then q
  else
    let (placeholders, args) := holders values q.args
    let (relatedPlaceholders, args) := holders values args
    { clauses := q.clauses ++ [[.text "(memo_id IN ("] ++ join (.text ", ") (placeholders.map ([·]))
        ++ [.text ") OR related_memo_id IN ("] ++ join (.text ", ") (relatedPlaceholders.map ([·]))
        ++ [.text "))"]]
      args }

/-- The filter of the memos at both ends, rendered once for each. -/
def Query.memoFilter (q : Query) : Option Condition → Except String Query
  | none => .ok q
  | some filter => do
      let s ← q.compile memoSchema filter
      match s.sql with
      | none => return q
      | some _ =>
          let q := q.statement "memo_id IN (SELECT id FROM memo WHERE " ")" s
          let related ← q.compile memoSchema filter
          return q.statement "related_memo_id IN (SELECT id FROM memo WHERE " ")" related

def FindMemoRelation.start (find : FindMemoRelation) : Query :=
  let q : Query := { clauses := [[.text "1 = 1"]] }
  let q := q.clause "memo_id IN (SELECT id FROM memo WHERE deleted_ts IS NULL) AND related_memo_id IN (SELECT id FROM memo WHERE deleted_ts IS NULL)"
  let q := q.compare? "memo_id = " (find.memoID.map .int) ""
  let q := q.compare? "related_memo_id = " (find.relatedMemoID.map .int) ""
  let q := q.compare? "type = " (find.type.map .text) ""
  let q := q.eitherEnd (find.memoIDList.map .int)
  let q := q.compareIn "memo_id IN (" (find.sourceMemoIDList.map .int)
  let q := q.compareIn "related_memo_id IN (" (find.relatedMemoIDList.map .int)
  q.compare? "memo_id IN (SELECT id FROM memo WHERE row_status = " (find.sourceMemoRowStatus.map .text) ")"

def relationsFrom : String := "SELECT memo_id, related_memo_id, type FROM memo_relation WHERE "

def FindMemoRelation.order (find : FindMemoRelation) : String :=
  "memo_id " ++ if find.orderByMemoIDAsc then "ASC" else "DESC"

def ListMemoRelations (find : FindMemoRelation) : Except String Sent := do
  let q ← find.start.memoFilter find.memoFilter
  return {
    sql := [.text relationsFrom] ++ join (.text " AND ") q.clauses
      ++ [.text (" ORDER BY " ++ find.order)] ++ paging find.limit find.offset
    args := q.args }

end Memos.Filter.Postgres
