/-
Rendering a condition tree to SQL.

`internal/filter/render.go`, function for function.  The renderer walks the tree and
pushes the arguments of the leaves on a list as it meets them; the SQL comes back as
a value.  The two travel apart: a constant operand makes `combineAnd` and `combineOr`
throw away the SQL of the other side, but not the arguments that side has pushed.

`renderResult` has three shapes in the source (a fragment, or one of two flags), and
three constructors here.  The branches that answer an unknown dialect, operator,
comprehension kind or node type have no counterpart: the types leave no such value.
-/
import Memos.Filter.Schema
import Mathlib.Algebra.Group.Int.Defs

namespace Memos.Filter

open Sql

structure Renderer where
  schema : Schema
  dialect : Dialect
  placeholderOffset : Nat := 0

structure RenderState where
  placeholderCounter : Nat := 0
  args : List Value := []
  counted : placeholderCounter = args.length := by decide

inductive RenderResult where
  | trivial
  /-- No row passes; the source also sets the text to `1 = 0`. -/
  | unsatisfiable
  | fragment (sql : Pred)

abbrev RenderM := StateT RenderState (Except String)

def RenderState.push (st : RenderState) (value : Value) : RenderState where
  placeholderCounter := st.placeholderCounter + 1
  args := st.args ++ [value]
  counted := by simp [st.counted]

def addArg (value : Value) : RenderM Expr := fun st =>
  .ok (.arg st.placeholderCounter, st.push value)

def addBoolArg (R : Renderer) (value : Bool) : RenderM Expr :=
  match R.dialect with
  | .sqlite => addArg (.int (if value then 1 else 0))
  | _ => addArg (.bool value)

def Renderer.placeholder (R : Renderer) (k : Nat) : String :=
  match R.dialect with
  | .postgres => "$" ++ toString (R.placeholderOffset + (k + 1))
  | _ => "?"

/-! ### Literals -/

/-- The name of a literal's Go type, as `%T` prints it. -/
def Literal.typeName : Literal → String
  | .null => "<nil>"
  | .bool _ => "bool"
  | .string _ => "string"
  | .int _ => "int64"
  | .double _ _ => "float64"

def expectLiteral : ValueExpr → RenderM Literal
  | .literal value => pure value
  | _ => throw "expression must be a literal"

def expectBool (expr : ValueExpr) : RenderM Bool := do
  match ← expectLiteral expr with
  | .bool value => pure value
  | _ => throw "boolean literal required"

/-- Truncation toward zero, as a Go conversion to an integer does. -/
def truncateDouble (mantissa exponent : Int) : Int :=
  if 0 ≤ exponent then mantissa * 2 ^ exponent.toNat
  else mantissa.tdiv (2 ^ (-exponent).toNat)

def toInt64 : Literal → Except String Int
  | .int n => .ok n
  | .double mantissa exponent => .ok (truncateDouble mantissa exponent)
  | lit => .error ("cannot convert " ++ lit.typeName ++ " to int64")

def expectNumericLiteral (expr : ValueExpr) : RenderM Int := do
  let lit ← expectLiteral expr
  toInt64 lit

/-- `errors.Wrap`: the context goes in front of the cause. -/
def wrapError {α : Type} (context : String) (x : Except String α) : Except String α :=
  x.mapError fun err => context ++ ": " ++ err

def unknownField {α : Type} (name : String) : RenderM α := throw ("unknown field " ++ name.quote)

/-! ### JSON expressions -/

/-- `buildPostgresJSONAccessor`: the last step is textual when `terminalText` is set. -/
def buildPostgresJSONAccessor (base : Expr) (terminalText : Bool) : List Name → Expr
  | [] => base
  | [key] => if terminalText then .arrowText base key else .arrow base key
  | key :: rest => buildPostgresJSONAccessor (.arrow base key) terminalText rest

def jsonExtractExpr (d : Dialect) (field : Field) : Expr :=
  match d with
  | .postgres => buildPostgresJSONAccessor (qualifyColumn d field.column) true field.jsonPath
  | _ => .jsonExtract (qualifyColumn d field.column) field.jsonPath

def jsonArrayExpr (d : Dialect) (field : Field) : Expr :=
  match d with
  | .postgres => buildPostgresJSONAccessor (qualifyColumn d field.column) false field.jsonPath
  | _ => .jsonExtract (qualifyColumn d field.column) field.jsonPath

def jsonArrayOrEmpty (d : Dialect) (field : Field) : Expr :=
  .call₂ .coalesce (jsonArrayExpr d field) (.emptyArray (d = .postgres))

def jsonArrayLengthExpr (d : Dialect) (field : Field) : Expr :=
  match d with
  | .sqlite => .call .jsonArrayLengthUpper (jsonArrayOrEmpty d field)
  | .mysql => .call .jsonLength (jsonArrayOrEmpty d field)
  | .postgres => .call .jsonbArrayLength (jsonArrayOrEmpty d field)

/-- MySQL's `LENGTH` counts bytes. -/
def stringLengthExpr (d : Dialect) (colExpr : Expr) : Expr :=
  match d with
  | .mysql => .call .charLength colExpr
  | _ => .call .length colExpr

def jsonBoolPredicate (R : Renderer) (field : Field) : Pred :=
  let expr := jsonExtractExpr R.dialect field
  match R.dialect with
  | .sqlite => .isTrue expr
  | .mysql => .cmp (.call₂ .coalesce expr (.jsonBool false)) .eq (.jsonBool true)
  | .postgres => .isTrue (.convert expr .boolean)

def jsonExistsSQL (R : Renderer) (field : Field) : Pred :=
  let expr := jsonExtractExpr R.dialect field
  match R.dialect with
  | .mysql =>
    .cmp (.call₂ .coalesce (.call .jsonType expr) (.str ⟨"NULL", null_unmarked⟩)) .ne
      (.str ⟨"NULL", null_unmarked⟩)
  | _ => .isNotNull expr

/-! ### Comparisons -/

/-- A timestamp accessor: its SQL tokens, and what to subtract to reach CEL's base. -/
structure AccessorSpec where
  sqlite : Name
  pg : Name
  mysql : Name
  off : Dialect → Nat

/-- Offsets in the order of the source's table: SQLite, Postgres, MySQL. -/
def offsets (sqlite pg mysql : Nat) : Dialect → Nat
  | .sqlite => sqlite
  | .postgres => pg
  | .mysql => mysql

def accessorSpecs : String → Option AccessorSpec
  | "getFullYear" =>
    some ⟨⟨"%Y", by decide⟩, ⟨"YEAR", by decide⟩, ⟨"YEAR", by decide⟩, offsets 0 0 0⟩
  | "getMonth" =>
    some ⟨⟨"%m", by decide⟩, ⟨"MONTH", by decide⟩, ⟨"MONTH", by decide⟩, offsets 1 1 1⟩
  | "getDate" =>
    some ⟨⟨"%d", by decide⟩, ⟨"DAY", by decide⟩, ⟨"DAYOFMONTH", by decide⟩, offsets 0 0 0⟩
  | "getDayOfMonth" =>
    some ⟨⟨"%d", by decide⟩, ⟨"DAY", by decide⟩, ⟨"DAYOFMONTH", by decide⟩, offsets 1 1 1⟩
  | "getDayOfWeek" =>
    some ⟨⟨"%w", by decide⟩, ⟨"DOW", by decide⟩, ⟨"DAYOFWEEK", by decide⟩, offsets 0 0 1⟩
  | "getDayOfYear" =>
    some ⟨⟨"%j", by decide⟩, ⟨"DOY", by decide⟩, ⟨"DAYOFYEAR", by decide⟩, offsets 1 1 1⟩
  | "getHours" =>
    some ⟨⟨"%H", by decide⟩, ⟨"HOUR", by decide⟩, ⟨"HOUR", by decide⟩, offsets 0 0 0⟩
  | "getMinutes" =>
    some ⟨⟨"%M", by decide⟩, ⟨"MINUTE", by decide⟩, ⟨"MINUTE", by decide⟩, offsets 0 0 0⟩
  | "getSeconds" =>
    some ⟨⟨"%S", by decide⟩, ⟨"SECOND", by decide⟩, ⟨"SECOND", by decide⟩, offsets 0 0 0⟩
  | _ => none

def accessorBase (d : Dialect) (spec : AccessorSpec) (col : Expr) : Expr :=
  match d with
  | .sqlite => .cast (.datePart .strftime spec.sqlite col) .integer
  | .postgres => .cast (.datePart .extract spec.pg col) .integer
  | .mysql => .datePart .function spec.mysql col

def timestampAccessorExpr (R : Renderer) (field : Field) (accessor : String) : RenderM Expr :=
  match accessorSpecs accessor with
  | none => throw ("unsupported timestamp accessor " ++ accessor.quote)
  | some spec =>
    let base := accessorBase R.dialect spec (qualifyColumn R.dialect field.column)
    let off := spec.off R.dialect
    pure (if off ≠ 0 then .minus base off else base)

def renderAccessorComparison (R : Renderer) (name accessor : String) (op : Op)
    (right : ValueExpr) : RenderM RenderResult :=
  match R.schema.field? name with
  | none => unknownField name
  | some field => do
    let value ← expectNumericLiteral right
    let expr ← timestampAccessorExpr R field accessor
    let placeholder ← addArg (.int value)
    pure (.fragment (.cmp expr op placeholder))

def sizeExpr (R : Renderer) (field : Field) : RenderM Expr :=
  if field.kind = .jsonList then
    pure (jsonArrayLengthExpr R.dialect field)
  else if field.kind = .scalar ∧ field.type = .string then
    pure (stringLengthExpr R.dialect (field.columnExpr R.dialect))
  else
    throw ("size() does not support field " ++ field.name.quote)

def sizeField (R : Renderer) (name : String) : RenderM Field :=
  match R.schema.field? name with
  | none => unknownField name
  | some field =>
    if field.kind = .virtualAlias then
      match R.schema.resolveAlias name with
      | none => throw ("invalid alias " ++ name.quote)
      | some target => pure target
    else pure field

def renderFunctionComparison (R : Renderer) (fn : String) (args : List ValueExpr) (op : Op)
    (right : ValueExpr) : RenderM RenderResult := do
  if fn ≠ "size" then
    throw ("unsupported function " ++ fn ++ " in comparison")
  match args with
  | [.fieldRef name] =>
    let field ← sizeField R name
    let value ← expectNumericLiteral right
    let expr ← sizeExpr R field
    let placeholder ← addArg (.int value)
    pure (.fragment (.cmp expr op placeholder))
  | [_] => throw "size() argument must be a field"
  | _ => throw "size() expects one argument"

def scalarArg (field : Field) (lit : Literal) : Except String Value :=
  match field.type with
  | .string =>
    match lit with
    | .string value => .ok (.text value)
    | _ => .error ("field " ++ field.name.quote ++ " expects string value")
  | .int | .timestamp =>
    (wrapError ("field " ++ field.name.quote ++ " expects integer value") (toInt64 lit)).map
      Value.int
  | .bool => .error ("unsupported data type " ++ "bool".quote ++ " for field " ++ field.name)

def opText : Op → String
  | .eq => "="
  | .ne => "!="
  | .lt => "<"
  | .le => "<="
  | .gt => ">"
  | .ge => ">="

def renderScalarComparison (R : Renderer) (field : Field) (op : Op) (right : ValueExpr) :
    RenderM RenderResult := do
  let lit ← expectLiteral right
  let columnExpr := field.columnExpr R.dialect
  match lit with
  | .null =>
    match op with
    | .eq => pure (.fragment (.isNull columnExpr))
    | .ne => pure (.fragment (.isNotNull columnExpr))
    | op => throw ("operator " ++ opText op ++ " not supported for null comparison")
  | lit =>
    let value ← scalarArg field lit
    let placeholder ← addArg value
    pure (.fragment (.cmp columnExpr op placeholder))

def renderBoolColumnComparison (R : Renderer) (field : Field) (op : Op) (right : ValueExpr) :
    RenderM RenderResult := do
  let value ← expectBool right
  let placeholder ← addBoolArg R value
  pure (.fragment (.cmp (qualifyColumn R.dialect field.column) op placeholder))

/-- The SQLite rendering: `has_task_list` is compared with a number, the other flags
are tested for truth. -/
def sqliteJSONBool (field : Field) (op : Op) (value : Bool) : Except String Pred :=
  let jsonExpr := jsonExtractExpr .sqlite field
  match op with
  | .eq =>
    if field.name = "has_task_list" then
      .ok (.cmp jsonExpr .eq (.int (if value then 1 else 0)))
    else if value then .ok (.isTrue jsonExpr)
    else .ok (.notTight (.isTrue jsonExpr))
  | .ne =>
    if field.name = "has_task_list" then
      .ok (.cmp jsonExpr .ne (.int (if value then 1 else 0)))
    else if value then .ok (.notTight (.isTrue jsonExpr))
    else .ok (.isTrue jsonExpr)
  | op => .error ("operator " ++ opText op ++ " not supported for boolean JSON field")

def renderJSONBoolComparison (R : Renderer) (field : Field) (op : Op) (right : ValueExpr) :
    RenderM RenderResult := do
  let value ← expectBool right
  let jsonExpr := jsonExtractExpr R.dialect field
  match R.dialect with
  | .sqlite =>
    let sql ← sqliteJSONBool field op value
    pure (.fragment sql)
  | .mysql =>
    -- A missing `hidden` reads as false; no other flag has this.
    let jsonExpr :=
      if field.name = "hidden" then .call₂ .coalesce jsonExpr (.jsonBool false) else jsonExpr
    pure (.fragment (.cmp jsonExpr op (.jsonBool value)))
  | .postgres =>
    let placeholder ← addArg (.bool value)
    if field.name = "hidden" then
      pure (.fragment
        (.cmp (.call₂ .coalesce (.convert jsonExpr .boolean) (.bool false)) op placeholder))
    else
      pure (.fragment (.cmp (.convert jsonExpr .boolean) op placeholder))

def renderJSONExistsComparison (R : Renderer) (field : Field) (op : Op) (right : ValueExpr) :
    RenderM RenderResult := do
  let value ← (fun st => wrapError "json existence comparison requires a boolean value"
    ((expectBool right).run st))
  let existsSQL := jsonExistsSQL R field
  match op with
  | .eq => pure (.fragment (if value then existsSQL else .not existsSQL))
  | .ne => pure (.fragment (if !value then existsSQL else .not existsSQL))
  | op => throw ("operator " ++ opText op ++ " not supported for field " ++ field.name.quote)

def renderComparison (R : Renderer) (left : ValueExpr) (op : Op) (right : ValueExpr) :
    RenderM RenderResult :=
  match left with
  | .fieldRef name =>
    match R.schema.field? name with
    | none => unknownField name
    | some field =>
      match field.kind with
      | .boolColumn => renderBoolColumnComparison R field op right
      | .jsonBool => renderJSONBoolComparison R field op right
      | .jsonExists => renderJSONExistsComparison R field op right
      | .scalar => renderScalarComparison R field op right
      | _ => throw ("field " ++ field.name.quote ++ " does not support comparison")
  | .function fn args => renderFunctionComparison R fn args op right
  | .fieldAccessor field accessor => renderAccessorComparison R field accessor op right
  | .literal _ => throw "comparison must start with a field reference or supported function"

def renderFieldPredicate (R : Renderer) (name : String) : RenderM RenderResult :=
  match R.schema.field? name with
  | none => unknownField name
  | some field =>
    match field.kind with
    | .boolColumn => pure (.fragment (.isTrue (qualifyColumn R.dialect field.column)))
    | .jsonBool => pure (.fragment (jsonBoolPredicate R field))
    | .jsonExists => pure (.fragment (jsonExistsSQL R field))
    | _ => throw ("field " ++ name.quote ++ " cannot be used as a predicate")

/-! ### List elements -/

def tagItem : Name := ⟨"tag_item", by decide⟩

def tagElement : Expr := .element ⟨"tag_item.value", by decide⟩

/-- `strings.NewReplacer` for characters: each is replaced on its own, in one pass. -/
def escapeChars (escape : Char) (s : String) : String :=
  String.join (s.toList.map fun c =>
    if c = escape ∨ c = '%' ∨ c = '_' then escape.toString ++ c.toString else c.toString)

/-- A text as a `LIKE` pattern of the given mode, wildcards in it made literal. -/
def wrapPattern (mode : TextMatchMode) (escaped : String) : String :=
  match mode with
  | .matchPrefix => escaped ++ "%"
  | .matchSuffix => "%" ++ escaped
  | .matchContains => "%" ++ escaped ++ "%"

def escapeLikeLiteral (s : String) : String := escapeChars '\\' s

def likePattern (mode : TextMatchMode) (value : String) : String :=
  wrapPattern mode (escapeLikeLiteral value)

def tagLikePattern (mode : TextMatchMode) (value : String) : String :=
  wrapPattern mode (escapeChars '!' value)

def tagElementTextMatch (R : Renderer) (element : Expr) (mode : TextMatchMode)
    (value : String) : RenderM Pred :=
  if value = "" then pure (.const true)
  else
    match R.dialect with
    | .sqlite =>
      match mode with
      | .matchPrefix => do
        let placeholder ← addArg (.text value)
        pure (.cmp (.call₂ .instr element placeholder) .eq (.int 1))
      | .matchSuffix => do
        let lengthValue ← addArg (.text value)
        let compareValue ← addArg (.text value)
        pure (.cmp
          (.collate (.call₂ .substr element (.neg (.call .lengthLower lengthValue))) .binary) .eq
          (.collate compareValue .binary))
      | .matchContains => do
        let placeholder ← addArg (.text value)
        pure (.cmp (.call₂ .instr element placeholder) .gt (.int 0))
    | .mysql => do
      let placeholder ← addArg (.text (tagLikePattern mode value))
      pure (.like .likeBang (.cast element .binary) (.cast placeholder .binary))
    | .postgres => do
      let placeholder ← addArg (.text (tagLikePattern mode value))
      pure (.like .likeBang (.collate element .posix) (.collate (.asText placeholder) .posix))

def tagElementPredicateSQL (R : Renderer) (element : Expr) : PredicateExpr → RenderM Pred
  | .equals value => do
    let placeholder ← addArg (.text value)
    match R.dialect with
    | .sqlite => pure (.cmp (.collate element .binary) .eq (.collate placeholder .binary))
    | .mysql => pure (.cmp (.cast element .binary) .eq (.cast placeholder .binary))
    | .postgres =>
      pure (.cmp (.collate element .posix) .eq (.collate (.asText placeholder) .posix))
  | .startsWith text => tagElementTextMatch R element .matchPrefix text
  | .endsWith text => tagElementTextMatch R element .matchSuffix text
  | .contains text => tagElementTextMatch R element .matchContains text

def unnest : Dialect → Unnest
  | .sqlite => .jsonEach
  | .mysql => .jsonTable
  | .postgres => .jsonbElements

def elementCount (d : Dialect) (arr : Expr) : Expr :=
  match d with
  | .sqlite => .call .jsonArrayLength arr
  | .mysql => .call .jsonLength arr
  | .postgres => .call .jsonbArrayLength arr

/-- Some element satisfies the condition.  MySQL counts: it would turn `EXISTS` over
`JSON_TABLE` into a semi-join that loses the outer row. -/
def anyMatch (d : Dialect) (arr : Expr) (cond : Pred) : Pred :=
  match d with
  | .mysql => .countIn (unnest d) tagItem arr cond .gt 0
  | _ => .existsIn (unnest d) tagItem arr cond

def noMatch (d : Dialect) (arr : Expr) (cond : Pred) : Pred :=
  match d with
  | .mysql => .countIn (unnest d) tagItem arr cond .eq 0
  | _ => .notExistsIn (unnest d) tagItem arr cond

def comprehensionSQL (d : Dialect) (arr : Expr) (cond : Pred) : ComprehensionKind → Pred
  | .exists' => anyMatch d arr cond
  | .all => .paren (.and (.cmp (elementCount d arr) .gt (.int 0)) (noMatch d arr (.not cond)))
  | .existsOne => .countIn (unnest d) tagItem arr cond .eq 1

def renderTagComprehension (R : Renderer) (field : Field) (pred : PredicateExpr)
    (kind : ComprehensionKind) : RenderM Pred := do
  let elemCond ← tagElementPredicateSQL R tagElement pred
  pure (comprehensionSQL R.dialect (jsonArrayOrEmpty R.dialect field) elemCond kind)

def renderJSONListContains (R : Renderer) (field : Field) (value : String) : RenderM Pred :=
  renderTagComprehension R field (.equals value) .exists'

def renderListComprehension (R : Renderer) (kind : ComprehensionKind) (name : String)
    (predicate : PredicateExpr) : RenderM RenderResult :=
  match R.schema.field? name with
  | none => unknownField name
  | some field =>
    if field.kind ≠ .jsonList then
      throw ("field " ++ name.quote ++ " is not a JSON list")
    else do
      let sql ← renderTagComprehension R field predicate kind
      pure (.fragment sql)

def renderElementInCondition (R : Renderer) (element : ValueExpr) (name : String) :
    RenderM RenderResult :=
  match R.schema.field? name with
  | none => unknownField name
  | some field =>
    if field.kind ≠ .jsonList then
      throw ("field " ++ name.quote ++ " is not a tag list")
    else do
      match ← expectLiteral element with
      | .string str =>
        let sql ← renderJSONListContains R field str
        pure (.fragment sql)
      | _ => throw "tags membership requires string literal"

/-! ### IN lists -/

def renderTagConditions (R : Renderer) (field : Field) : List ValueExpr → RenderM (List Pred)
  | [] => pure []
  | v :: rest => do
    match ← expectLiteral v with
    | .string str =>
      let condition ← renderJSONListContains R field str
      let conditions ← renderTagConditions R field rest
      pure (condition :: conditions)
    | _ => throw "tags must be compared with string literals"

def joinOr : Pred → List Pred → Pred
  | p, [] => p
  | p, q :: rest => .or p (joinOr q rest)

def renderTagInList (R : Renderer) (values : List ValueExpr) : RenderM RenderResult :=
  match R.schema.resolveAlias "tag" with
  | none => throw "tag attribute is not configured"
  | some field => do
    match ← renderTagConditions R field values with
    | [] => pure (.fragment (.const false))
    | [condition] => pure (.fragment condition)
    | condition :: rest => pure (.fragment (.paren (joinOr condition rest)))

def inListArg (field : Field) (lit : Literal) : Except String Value :=
  match field.type with
  | .string =>
    match lit with
    | .string str => .ok (.text str)
    | _ => .error ("field " ++ field.name.quote ++ " expects string values")
  | .int => (toInt64 lit).map Value.int
  | _ => .error ("field " ++ field.name.quote ++ " does not support IN() comparisons")

def inListPlaceholders (field : Field) : List ValueExpr → RenderM (List Nat)
  | [] => pure []
  | v :: rest => do
    let lit ← expectLiteral v
    let value ← inListArg field lit
    let st ← get
    let _ ← addArg value
    let ks ← inListPlaceholders field rest
    pure (st.placeholderCounter :: ks)

def renderScalarInCondition (R : Renderer) (field : Field) (values : List ValueExpr) :
    RenderM RenderResult := do
  let ks ← inListPlaceholders field values
  pure (.fragment (.inList (field.columnExpr R.dialect) ks))

def renderInCondition (R : Renderer) (left : ValueExpr) (values : List ValueExpr) :
    RenderM RenderResult :=
  match left with
  | .fieldRef name =>
    if name = "tag" then renderTagInList R values
    else
      match R.schema.field? name with
      | none => unknownField name
      | some field =>
        if field.kind ≠ .scalar then
          throw ("field " ++ name.quote ++ " does not support IN()")
        else renderScalarInCondition R field values
  | _ => throw "IN operator requires a field on the left-hand side"

/-! ### Text matches -/

def foldedLike (R : Renderer) (colExpr : Expr) (pattern : String) : RenderM Pred := do
  let placeholder ← addArg (.text pattern)
  match R.dialect with
  | .sqlite => pure (.like .likeBackslash (.call .lower colExpr) (.call .lower placeholder))
  | .postgres => pure (.like .ilike colExpr placeholder)
  | .mysql => pure (.like .like colExpr placeholder)

def renderTextMatch (R : Renderer) (name : String) (mode : TextMatchMode) (value : String) :
    RenderM RenderResult :=
  match R.schema.field? name with
  | none => unknownField name
  | some field => do
    let sql ← foldedLike R (field.columnExpr R.dialect) (likePattern mode value)
    pure (.fragment sql)

def renderRegex (R : Renderer) (name pattern : String) : RenderM RenderResult :=
  match R.schema.field? name with
  | none => unknownField name
  | some field => do
    let placeholder ← addArg (.text pattern)
    match R.dialect with
    | .postgres => pure (.fragment (.like .tilde (field.columnExpr R.dialect) placeholder))
    | _ => pure (.fragment (.like .regexp (field.columnExpr R.dialect) placeholder))

/-! ### The tree -/

def combineAnd : RenderResult → RenderResult → RenderResult
  | .unsatisfiable, _ => .unsatisfiable
  | _, .unsatisfiable => .unsatisfiable
  | .trivial, right => right
  | left, .trivial => left
  | .fragment left, .fragment right => .fragment (.paren (.and left right))

def combineOr : RenderResult → RenderResult → RenderResult
  | .trivial, _ => .trivial
  | _, .trivial => .trivial
  | .unsatisfiable, right => right
  | left, .unsatisfiable => left
  | .fragment left, .fragment right => .fragment (.paren (.or left right))

def negateResult : RenderResult → RenderResult
  | .trivial => .unsatisfiable
  | .unsatisfiable => .trivial
  | .fragment sql => .fragment (.not sql)

def renderCondition (R : Renderer) : Condition → RenderM RenderResult
  | .logical operator left right => do
    let l ← renderCondition R left
    let r ← renderCondition R right
    match operator with
    | .and => pure (combineAnd l r)
    | .or => pure (combineOr l r)
  | .not expr => do
    let child ← renderCondition R expr
    pure (negateResult child)
  | .fieldPredicate field => renderFieldPredicate R field
  | .comparison left operator right => renderComparison R left operator right
  | .inList left values => renderInCondition R left values
  | .elementIn element field => renderElementInCondition R element field
  | .textMatch field mode value => renderTextMatch R field mode value
  | .regex field pattern => renderRegex R field pattern
  | .listComprehension kind field _ predicate => renderListComprehension R kind field predicate
  | .constant value => pure (if value then .trivial else .unsatisfiable)

/-- A rendered filter: its condition, none when there is nothing to restrict (the
source's empty text), and its arguments. -/
structure Statement where
  sql : Option Pred
  args : List Value

def Renderer.render (R : Renderer) (cond : Condition) : Except String Statement := do
  let (result, st) ← (renderCondition R cond).run {}
  match result with
  | .unsatisfiable => pure { sql := some (.const false), args := st.args }
  | .trivial => pure { sql := none, args := st.args }
  | .fragment sql => pure { sql := some sql, args := st.args }

def Statement.text (R : Renderer) (s : Statement) : String :=
  match s.sql with
  | none => ""
  | some p => p.toText R.placeholder

end Memos.Filter
