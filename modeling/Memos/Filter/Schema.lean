/-
The condition tree of a filter.

A filter written in CEL is parsed into the types of this file, and everything that
follows (rendering to SQL, the check that a filter does not probe spaces) works on
the tree.  The constructors are those of `internal/filter/ir.go`, one for one.
-/
import Memos.Lib.Sql

namespace Memos.Filter

/-- A constant of the filter language.  A double is `mantissa * 2 ^ exponent`. -/
inductive Literal where
  | null
  | bool (b : Bool)
  | string (s : String)
  | int (n : Int)
  | double (mantissa exponent : Int)
  deriving DecidableEq, Repr

inductive LogicalOperator where
  | and
  | or
  deriving DecidableEq, Repr

inductive TextMatchMode where
  | matchContains
  | matchPrefix
  | matchSuffix
  deriving DecidableEq, Repr

inductive ComprehensionKind where
  | exists'
  | all
  | existsOne
  deriving DecidableEq, Repr

inductive PredicateExpr where
  | startsWith (text : String)
  | endsWith (text : String)
  | contains (text : String)
  | equals (value : String)
  deriving DecidableEq, Repr

inductive ValueExpr where
  | fieldRef (name : String)
  | literal (value : Literal)
  | function (name : String) (args : List ValueExpr)
  | fieldAccessor (field accessor : String)

inductive Condition where
  | logical (operator : LogicalOperator) (left right : Condition)
  | not (expr : Condition)
  | fieldPredicate (field : String)
  | comparison (left : ValueExpr) (operator : Sql.Op) (right : ValueExpr)
  | inList (left : ValueExpr) (values : List ValueExpr)
  | elementIn (element : ValueExpr) (field : String)
  | textMatch (field : String) (mode : TextMatchMode) (value : String)
  | regex (field pattern : String)
  | listComprehension (kind : ComprehensionKind) (field iterVar : String)
      (predicate : PredicateExpr)
  | constant (value : Bool)

end Memos.Filter

/-
The fields a filter may name, and where each is stored.

`NewSchema` and `NewAttachmentSchema` of `internal/filter/schema.go`, less what only
the CEL parser reads (the variable declarations, the operators and text matches it
allows on each field).  A dialect's override of a column expression is a function
from the qualified column to an SQL expression rather than a format string, so that
the override has a value as well as a text; it brings no placeholder of its own.
-/

namespace Memos.Filter

open Sql

inductive Dialect where
  | sqlite
  | mysql
  | postgres
  deriving DecidableEq, Repr

inductive FieldType where
  | string
  | int
  | bool
  | timestamp
  deriving DecidableEq, Repr

inductive FieldKind where
  | scalar
  | boolColumn
  | jsonBool
  /-- A Boolean derived from the presence of a non-null JSON value. -/
  | jsonExists
  | jsonList
  | virtualAlias
  deriving DecidableEq, Repr

structure Column where
  table : Name
  name : Name

structure Override where
  apply : Expr → Expr
  plain : ∀ e, e.holes = [] → (apply e).holes = []

structure Field where
  name : String
  kind : FieldKind
  type : FieldType
  column : Column
  jsonPath : List Name := []
  aliasFor : String := ""
  expressions : Dialect → Option Override := fun _ => none

/-- A schema: its fields, each under its own name. -/
structure Schema where
  fields : List Field

namespace Schema

def field? (S : Schema) (name : String) : Option Field :=
  S.fields.find? (fun f => f.name == name)

/-- The field an alias stands for; a field that is no alias stands for itself. -/
def resolveAlias (S : Schema) (name : String) : Option Field :=
  match S.field? name with
  | none => none
  | some field => if field.kind = .virtualAlias then S.field? field.aliasFor else some field

end Schema

def qualifyColumn (d : Dialect) (col : Column) : Expr :=
  match d with
  | .postgres => .column false col.table col.name
  | _ => .column true col.table col.name

theorem qualifyColumn_holes (d : Dialect) (col : Column) : (qualifyColumn d col).holes = [] := by
  cases d <;> simp [qualifyColumn]

/-- The SQL expression of a field, with the dialect's override applied. -/
def Field.columnExpr (f : Field) (d : Dialect) : Expr :=
  match f.expressions d with
  | some expr => expr.apply (qualifyColumn d f.column)
  | none => qualifyColumn d f.column

theorem Field.columnExpr_holes (f : Field) (d : Dialect) : (f.columnExpr d).holes = [] := by
  unfold Field.columnExpr
  cases f.expressions d with
  | none => exact qualifyColumn_holes d f.column
  | some expr => exact expr.plain _ (qualifyColumn_holes d f.column)

/-! ### The memo schema -/

def memoColumn (name : Name) : Column := ⟨⟨"memo", by decide⟩, name⟩

def resourceExpr (pre : Name) (d : Dialect) (e : Expr) : Expr :=
  match d with
  | .mysql => .call₂ .concat (.str pre) e
  | _ => .concat (.str pre) e

theorem resourceExpr_holes (pre : Name) (d : Dialect) (e : Expr) :
    (resourceExpr pre d e).holes = e.holes := by cases d <;> simp [resourceExpr]

def creatorName (d : Dialect) : Option Override :=
  some ⟨resourceExpr ⟨"users/", by decide⟩ d, fun e he => by rw [resourceExpr_holes, he]⟩

/-- MySQL keeps timestamps as `TIMESTAMP`, the others as seconds. -/
def epochSeconds : Dialect → Option Override
  | .mysql => some ⟨.call .unixTimestamp, fun e he => by simpa using he⟩
  | _ => some ⟨id, fun _ he => he⟩

/-- `NULL` without a space, the empty text for a space that is gone, else its name. -/
def spaceName (absent : Dialect → Pred) (plain : ∀ d, (absent d).holes = []) (d : Dialect) :
    Option Override :=
  some
    { apply := fun uid =>
        .caseWhen (absent d) .null (.isNull uid) (.str ⟨"", empty_unmarked⟩)
          (resourceExpr ⟨"spaces/", by decide⟩ d uid)
      plain := fun e he => by simp [plain, resourceExpr_holes, he] }

def memoSpaceAbsent (d : Dialect) : Pred :=
  .isNull (qualifyColumn d (memoColumn ⟨"space_id", by decide⟩))

theorem memoSpaceAbsent_holes (d : Dialect) : (memoSpaceAbsent d).holes = [] := by
  simp [memoSpaceAbsent, qualifyColumn_holes]

/-- The text or number under a payload key, before it is defaulted. -/
def payloadText (key : Name) (d : Dialect) (e : Expr) : Expr :=
  match d with
  | .sqlite => .jsonExtract e [key]
  | .mysql => .call .jsonUnquote (.jsonExtract e [key])
  | .postgres => .arrowText e key

theorem payloadText_holes (key : Name) (d : Dialect) (e : Expr) :
    (payloadText key d e).holes = e.holes := by cases d <;> simp [payloadText]

def toBigint (d : Dialect) (e : Expr) : Expr :=
  match d with
  | .sqlite => .cast e .integer
  | .mysql => .cast e .signed
  | .postgres => .convert e .bigint

def publishTsExpr (d : Dialect) : Option Override :=
  some
    { apply := fun e =>
        .call₂ .coalesce (toBigint d (payloadText ⟨"publishTs", by decide⟩ d e)) (.int 0)
      plain := fun e he => by cases d <;> simp [toBigint, payloadText_holes, he] }

def categoryExpr (d : Dialect) : Option Override :=
  some
    { apply := fun e =>
        .call₂ .coalesce (payloadText ⟨"category", by decide⟩ d e) (.str ⟨"", empty_unmarked⟩)
      plain := fun e he => by simp [payloadText_holes, he] }

/-- A flag of the memo payload, under the JSON path it is kept at. -/
def payloadFlag (name : String) (path : List Name) : Field where
  name := name
  kind := .jsonBool
  type := .bool
  column := memoColumn ⟨"payload", by decide⟩
  jsonPath := path

/-- A flag computed from the memo's content, kept under `property`. -/
def propertyFlag (name : String) (key : Name) : Field :=
  payloadFlag name [⟨"property", by decide⟩, key]

def memoSchema : Schema where
  fields := [
    { name := "content", kind := .scalar, type := .string,
      column := memoColumn ⟨"content", by decide⟩ },
    { name := "creator", kind := .scalar, type := .string,
      column := ⟨⟨"memo_creator", by decide⟩, ⟨"username", by decide⟩⟩,
      expressions := creatorName },
    { name := "creator_id", kind := .scalar, type := .int,
      column := memoColumn ⟨"creator_id", by decide⟩ },
    { name := "created_ts", kind := .scalar, type := .timestamp,
      column := memoColumn ⟨"created_ts", by decide⟩,
      expressions := epochSeconds },
    { name := "updated_ts", kind := .scalar, type := .timestamp,
      column := memoColumn ⟨"updated_ts", by decide⟩,
      expressions := epochSeconds },
    { name := "pinned", kind := .boolColumn, type := .bool,
      column := memoColumn ⟨"pinned", by decide⟩ },
    { name := "visibility", kind := .scalar, type := .string,
      column := memoColumn ⟨"visibility", by decide⟩ },
    { name := "space", kind := .scalar, type := .string,
      column := ⟨⟨"memo_space", by decide⟩, ⟨"uid", by decide⟩⟩,
      expressions := spaceName memoSpaceAbsent memoSpaceAbsent_holes },
    { name := "tags", kind := .jsonList, type := .string,
      column := memoColumn ⟨"payload", by decide⟩, jsonPath := [⟨"tags", by decide⟩] },
    { name := "tag", kind := .virtualAlias, type := .string,
      column := ⟨⟨"", empty_unmarked⟩, ⟨"", empty_unmarked⟩⟩, aliasFor := "tags" },
    propertyFlag "has_task_list" ⟨"hasTaskList", by decide⟩,
    propertyFlag "has_link" ⟨"hasLink", by decide⟩,
    propertyFlag "has_code" ⟨"hasCode", by decide⟩,
    propertyFlag "has_incomplete_tasks" ⟨"hasIncompleteTasks", by decide⟩,
    { name := "has_location", kind := .jsonExists, type := .bool,
      column := memoColumn ⟨"payload", by decide⟩, jsonPath := [⟨"location", by decide⟩] },
    payloadFlag "hidden" [⟨"hidden", by decide⟩],
    payloadFlag "draft" [⟨"draft", by decide⟩],
    payloadFlag "quarantined" [⟨"quarantined", by decide⟩],
    { name := "publish_ts", kind := .scalar, type := .int,
      column := memoColumn ⟨"payload", by decide⟩, expressions := publishTsExpr },
    { name := "category", kind := .scalar, type := .string,
      column := memoColumn ⟨"payload", by decide⟩, expressions := categoryExpr } ]

/-! ### The attachment schema -/

def attachmentColumn (name : Name) : Column := ⟨⟨"attachment", by decide⟩, name⟩

def attachmentSpaceAbsent (d : Dialect) : Pred :=
  .or (.isNull (qualifyColumn d (attachmentColumn ⟨"memo_id", by decide⟩)))
    (.isNull (qualifyColumn d (memoColumn ⟨"space_id", by decide⟩)))

theorem attachmentSpaceAbsent_holes (d : Dialect) : (attachmentSpaceAbsent d).holes = [] := by
  simp [attachmentSpaceAbsent, qualifyColumn_holes]

def attachmentSchema : Schema where
  fields := [
    { name := "filename", kind := .scalar, type := .string,
      column := attachmentColumn ⟨"filename", by decide⟩ },
    { name := "mime_type", kind := .scalar, type := .string,
      column := attachmentColumn ⟨"type", by decide⟩ },
    { name := "create_time", kind := .scalar, type := .timestamp,
      column := attachmentColumn ⟨"created_ts", by decide⟩, expressions := epochSeconds },
    { name := "memo_id", kind := .scalar, type := .int,
      column := attachmentColumn ⟨"memo_id", by decide⟩ },
    { name := "space", kind := .scalar, type := .string,
      column := ⟨⟨"attachment_space", by decide⟩, ⟨"uid", by decide⟩⟩,
      expressions := spaceName attachmentSpaceAbsent attachmentSpaceAbsent_holes } ]

end Memos.Filter
