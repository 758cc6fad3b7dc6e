/-
What a filter means, without any SQL.

A `RowView` is a row seen through a schema: the value of each scalar field, each flag
of the payload (missing or not), the elements of each list.  `Condition.truth` gives
the three-valued meaning of a condition tree over such a view.  The leaves say openly
where a missing value makes them unknown; the connectives are Kleene's.

Nothing here is translated from the renderer.  This is the statement the renderer is
compared with: that the SQL of a tree evaluates to the meaning of the tree is proved
over it, and so is where negation goes wrong.
-/
import Memos.Filter.Render

namespace Memos.Filter

open Sql Kleene

structure RowView where
  value : String → Value
  column : String → Value
  bool : String → Bool
  flag : String → Option Bool
  present : String → Bool
  list : String → List String

variable (E : Engine) (d : Dialect) (S : Schema) (V : RowView)

/-! ### Rows

A row of the engine represents a view when each field's SQL yields what the view says,
in the encoding of the dialect.
-/

def encodeBool (b : Bool) : Value :=
  match d with
  | .sqlite => .int (if b then 1 else 0)
  | _ => .bool b

def encodeFlag (flag : Option Bool) : Value :=
  match flag with
  | none => .null
  | some b =>
    match d with
    | .sqlite => .int (if b then 1 else 0)
    | .mysql => .json (.bool b)
    | .postgres => .text (if b then "true" else "false")

structure Represents (R : Renderer) (E : Engine) (env : Env) (V : RowView) : Prop where
  value : ∀ name f, R.schema.field? name = some f →
    (f.columnExpr R.dialect).eval E env = V.value name
  column : ∀ name f, R.schema.field? name = some f →
    (qualifyColumn R.dialect f.column).eval E env = V.column name
  bool : ∀ name f, R.schema.field? name = some f → f.kind = .boolColumn →
    V.column name = encodeBool R.dialect (V.bool name)
  flag : ∀ name f, R.schema.field? name = some f → f.kind = .jsonBool →
    (jsonExtractExpr R.dialect f).eval E env = encodeFlag R.dialect (V.flag name)
  present : ∀ name f, R.schema.field? name = some f → f.kind = .jsonExists →
    (jsonExistsSQL R f).eval E env = .ofBool (V.present name)
  list : ∀ name f, R.schema.field? name = some f → f.kind = .jsonList →
    (jsonArrayOrEmpty R.dialect f).eval E env = .json (.arr ((V.list name).map .str))
  tagList : ∀ f, R.schema.resolveAlias "tag" = some f → f.kind = .jsonList

/-! ### Leaves -/

/-- Comparison of a scalar field with a literal; `null` asks for absence. -/
def scalarTruth (field : Field) (op : Op) (lit : Literal) : Truth :=
  match lit with
  | .null =>
    match op with
    | .eq => .ofBool (V.value field.name).isNull
    | _ => .ofBool (!(V.value field.name).isNull)
  | lit =>
    match scalarArg field lit with
    | .ok v => E.compareValues op (V.value field.name) v
    | .error _ => .unknown

/-- Where a missing flag reads as false in a comparison. -/
def missingReadsFalse (name : String) : Bool :=
  match d with
  | .sqlite => name ≠ "has_task_list"
  | _ => name = "hidden"

/-- Comparison of a payload flag: a missing flag is false or unknown, by field and dialect. -/
def flagTruth (name : String) (op : Op) (flag : Option Bool) (b : Bool) : Truth :=
  match flag with
  | some f => .ofBool (op.onBool f b)
  | none => if missingReadsFalse d name then .ofBool (op.onBool false b) else .unknown

def sizeTruth (field : Field) (op : Op) (n : Int) : Truth :=
  if field.kind = .jsonList then .ofBool (op.onInt (V.list field.name).length n)
  else
    match V.value field.name with
    | .null => .unknown
    | v => .ofBool (op.onInt (E.textOf v).length n)

/-- The engine's token for a date part, and the form it is used in. -/
def AccessorSpec.token (spec : AccessorSpec) : DateForm × Name :=
  match d with
  | .sqlite => (.strftime, spec.sqlite)
  | .postgres => (.extract, spec.pg)
  | .mysql => (.function, spec.mysql)

/-- Comparison of a part of a date, unknown outside the calendar. -/
def accessorTruth (name accessor : String) (op : Op) (n : Int) : Truth :=
  match accessorSpecs accessor with
  | none => .unknown
  | some spec =>
    match E.partOf (spec.token d).1 (spec.token d).2.text (V.column name) with
    | none => .unknown
    | some part => .ofBool (op.onInt (part - spec.off d) n)

def comparisonTruth (left : ValueExpr) (op : Op) (right : ValueExpr) : Truth :=
  match left, right with
  | .fieldRef name, .literal lit =>
    match S.field? name with
    | none => .unknown
    | some field =>
      match field.kind, lit with
      | .scalar, lit => scalarTruth E V field op lit
      | .boolColumn, .bool b => .ofBool (op.onBool (V.bool name) b)
      | .jsonBool, .bool b => flagTruth d name op (V.flag name) b
      | .jsonExists, .bool b => .ofBool (op.onBool (V.present name) b)
      | _, _ => .unknown
  | .function _ [.fieldRef name], .literal lit =>
    match S.resolveAlias name, toInt64 lit with
    | some field, .ok n => sizeTruth E V field op n
    | _, _ => .unknown
  | .fieldAccessor name accessor, .literal lit =>
    match toInt64 lit with
    | .ok n => accessorTruth E d V name accessor op n
    | .error _ => .unknown
  | _, _ => .unknown

def elementMatches (mode : TextMatchMode) (value s : String) : Bool :=
  if value = "" then true
  else
    match d with
    | .sqlite =>
      match mode with
      | .matchPrefix => decide (E.instr s value = 1)
      | .matchSuffix => decide (E.substr s (-value.length) = value)
      | .matchContains => decide (0 < E.instr s value)
    | _ => E.matchPattern .likeBang s (tagLikePattern mode value)

def elementHolds (pred : PredicateExpr) (s : String) : Bool :=
  match pred with
  | .equals value => decide (s = value)
  | .startsWith text => elementMatches E d .matchPrefix text s
  | .endsWith text => elementMatches E d .matchSuffix text s
  | .contains text => elementMatches E d .matchContains text s

/-- A comprehension over the elements of a list; `all` wants a non-empty one. -/
def comprehensionHolds (kind : ComprehensionKind) (p : String → Bool) (l : List String) : Bool :=
  match kind with
  | .exists' => l.any p
  | .all => decide (0 < l.length) && l.all p
  | .existsOne => decide (l.countP p = 1)

def stringLiteral? : ValueExpr → Option String
  | .literal (.string s) => some s
  | _ => none

def asksFor (l : List String) (v : ValueExpr) : Bool :=
  match stringLiteral? v with
  | some s => l.any fun item => decide (item = s)
  | none => false

def tagInListTruth (values : List ValueExpr) : Truth :=
  match S.resolveAlias "tag" with
  | none => .unknown
  | some field => .ofBool (values.any (asksFor (V.list field.name)))

/-- The argument a member of a scalar list stands for, when it is well typed. -/
def memberArg? (field : Field) : ValueExpr → Option Value
  | .literal lit => (inListArg field lit).toOption
  | _ => none

def inListTruth (left : ValueExpr) (values : List ValueExpr) : Truth :=
  match left with
  | .fieldRef name =>
    if name = "tag" then tagInListTruth S V values
    else
      match S.field? name with
      | none => .unknown
      | some field =>
        .any ((values.filterMap (memberArg? field)).map fun v =>
          E.compareValues .eq (V.value name) v)
  | _ => .unknown

/-- The matching operator and the folded sides of a case-insensitive match. -/
def textMatchTruth (name pattern : String) : Truth :=
  match d with
  | .sqlite =>
    E.matchValues .likeBackslash ((V.value name).strict (E.applyFn .lower))
      (.text (E.fold pattern))
  | .postgres => E.matchValues .ilike (V.value name) (.text pattern)
  | .mysql => E.matchValues .like (V.value name) (.text pattern)

def regexOp : MatchOp :=
  match d with
  | .postgres => .tilde
  | _ => .regexp

def fieldPredicateTruth (name : String) : Truth :=
  match S.field? name with
  | none => .unknown
  | some field =>
    match field.kind with
    | .boolColumn => .ofBool (V.bool name)
    | .jsonBool => .ofBool ((V.flag name).getD false)
    | .jsonExists => .ofBool (V.present name)
    | _ => .unknown

/-! ### Arguments

How many arguments a leaf binds: one for each literal it compares with, none where
the literal is written into the SQL.
-/

def predicateArgs (pred : PredicateExpr) : Nat :=
  match pred with
  | .equals _ => 1
  | .startsWith text => if text = "" then 0 else 1
  | .endsWith text => if text = "" then 0 else if d = .sqlite then 2 else 1
  | .contains text => if text = "" then 0 else 1

def comparisonArgs (left right : ValueExpr) : Nat :=
  match left, right with
  | .fieldRef name, .literal lit =>
    match S.field? name with
    | none => 0
    | some field =>
      match field.kind with
      | .scalar => if lit = .null then 0 else 1
      | .boolColumn => 1
      | .jsonBool => if d = .postgres then 1 else 0
      | _ => 0
  | _, _ => 1

namespace Condition

def leafArgs : Condition → Nat
  | .comparison left _ right => comparisonArgs d S left right
  | .inList _ values => values.length
  | .elementIn _ _ => 1
  | .textMatch _ _ _ => 1
  | .regex _ _ => 1
  | .listComprehension _ _ _ pred => predicateArgs d pred
  | _ => 0

def argCount : Condition → Nat
  | .logical _ left right => left.argCount + right.argCount
  | .not expr => expr.argCount
  | c => c.leafArgs d S

end Condition

/-! ### Trees -/

namespace Condition

/-- **The meaning of a condition tree on a row.** -/
def truth : Condition → Truth
  | .logical .and left right => left.truth.and right.truth
  | .logical .or left right => left.truth.or right.truth
  | .not expr => expr.truth.not
  | .fieldPredicate name => fieldPredicateTruth S V name
  | .comparison left op right => comparisonTruth E d S V left op right
  | .inList left values => inListTruth E S V left values
  | .elementIn element name =>
    match stringLiteral? element with
    | some s => .ofBool ((V.list name).any fun item => decide (item = s))
    | none => .unknown
  | .textMatch name mode value => textMatchTruth E d V name (likePattern mode value)
  | .regex name pattern => E.matchValues (regexOp d) (V.value name) (.text pattern)
  | .listComprehension kind name _ pred =>
    .ofBool (comprehensionHolds kind (elementHolds E d pred) (V.list name))
  | .constant value => .ofBool value

def constValue : Condition → Option Bool
  | .constant value => some value
  | .not expr => expr.constValue.map (!·)
  | .logical .and left right =>
    match left.constValue, right.constValue with
    | some false, _ => some false
    | _, some false => some false
    | some true, some true => some true
    | _, _ => none
  | .logical .or left right =>
    match left.constValue, right.constValue with
    | some true, _ => some true
    | _, some true => some true
    | some false, some false => some false
    | _, _ => none
  | _ => none

def keptArgs : Condition → Nat
  | .logical op left right =>
    if (constValue (.logical op left right)).isSome then 0
    else left.keptArgs + right.keptArgs
  | .not expr => expr.keptArgs
  | c => c.leafArgs d S

/-- Some part of the tree is decided by constants and contains a leaf that binds an
argument. -/
def foldsArgument : Condition → Bool
  | .logical op left right =>
    ((constValue (.logical op left right)).isSome && 0 < left.argCount d S + right.argCount d S) ||
      left.foldsArgument || right.foldsArgument
  | .not expr => expr.foldsArgument
  | _ => false

/-- Whether a leaf is one the engine runs: no empty list where `IN ()` is no SQL, no
regular expression it cannot compile. -/
def leafAccepted : Condition → Bool
  | .inList (.fieldRef name) values => name = "tag" || !values.isEmpty || E.emptyInList
  | .regex _ pattern => E.compiles pattern
  | _ => true

def accepted : Condition → Bool
  | .logical op left right =>
    (constValue (.logical op left right)).isSome || (left.accepted && right.accepted)
  | .not expr => expr.accepted
  | c => c.leafAccepted E

end Condition

end Memos.Filter
