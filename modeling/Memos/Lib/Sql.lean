/-
A fragment of SQL: expressions and row conditions, their text, and their value.

The fragment is the common ground of three engines (SQLite, MySQL and Postgres) as
far as a `WHERE` clause over one joined row goes: columns, bound arguments, JSON
paths, casts, `CASE`, comparisons, pattern matches, `IN`, and subqueries over the
elements of a JSON array.  Text and value are given side by side, so that a program
that assembles conditions can be held to both.

Two choices matter below.  A placeholder carries the position of the argument it
was emitted for, which the `?` of the text forgets; comparing the two is how a
misplaced argument shows.  And every name that reaches the text is a `Name`, which
cannot contain a `?`, so the question marks of a text are its placeholders.
-/
import Memos.Lib.Kleene

namespace Sql

open Kleene

/-- A text that contains no `?`: a table, a column, a JSON key, a keyword. -/
structure Name where
  text : String
  unmarked : '?' ∉ text.toList := by decide
  deriving DecidableEq

theorem empty_unmarked : '?' ∉ "".toList := by decide

theorem null_unmarked : '?' ∉ "NULL".toList := by decide

/-! ### Values -/

inductive Json where
  | null
  | bool (b : Bool)
  | num (n : Int)
  | str (s : String)
  | arr (items : List Json)
  | obj (fields : List (String × Json))

namespace Json

def get? : Json → String → Option Json
  | obj fields, key => (fields.find? (fun f => f.1 == key)).map Prod.snd
  | _, _ => none

def typeName : Json → String
  | null => "NULL"
  | bool _ => "BOOLEAN"
  | num _ => "INTEGER"
  | str _ => "STRING"
  | arr _ => "ARRAY"
  | obj _ => "OBJECT"

def path? : Json → List String → Option Json
  | j, [] => some j
  | j, key :: rest => (j.get? key).bind (fun inner => inner.path? rest)

end Json

/-- A value of a column or an expression.  `binary` is a text compared byte by byte,
whatever the collation of the column it came from. -/
inductive Value where
  | null
  | int (n : Int)
  | text (s : String)
  | bool (b : Bool)
  | timestamp (n : Int)
  | binary (s : String)
  | json (j : Json)

namespace Value

def isNull : Value → Bool
  | null => true
  | _ => false

def strict (f : Value → Value) : Value → Value
  | null => null
  | v => f v

def ofInt? : Option Int → Value
  | none => null
  | some n => int n

def strict₂ (f : Value → Value → Value) : Value → Value → Value
  | null, _ => null
  | _, null => null
  | v, w => f v w

end Value

/-! ### Syntax -/

inductive Op where
  | eq | ne | lt | le | gt | ge
  deriving DecidableEq, Repr

inductive Fn where
  | unixTimestamp
  | lower
  | length | lengthLower | charLength
  | jsonArrayLength | jsonArrayLengthUpper | jsonLength | jsonbArrayLength
  | jsonUnquote
  | jsonType
  deriving DecidableEq, Repr

inductive Fn₂ where
  | coalesce | concat | instr | substr
  deriving DecidableEq, Repr

inductive CastType where
  | integer | signed | binary
  deriving DecidableEq, Repr

inductive Conversion where
  | boolean | bigint
  deriving DecidableEq, Repr

inductive Collation where
  | binary | posix
  deriving DecidableEq, Repr

inductive MatchOp where
  | like | ilike | likeBackslash | likeBang | tilde | regexp
  deriving DecidableEq, Repr

inductive DateForm where
  | strftime | extract | function
  deriving DecidableEq, Repr

inductive Unnest where
  | jsonEach | jsonTable | jsonbElements
  deriving DecidableEq, Repr

mutual

inductive Expr where
  | column (quoted : Bool) (table name : Name)
  | element (name : Name)
  | arg (k : Nat)
  | null
  | str (s : Name)
  | int (n : Nat)
  | bool (b : Bool)
  | jsonBool (b : Bool)
  | emptyArray (jsonb : Bool)
  | call (f : Fn) (a : Expr)
  | call₂ (f : Fn₂) (a b : Expr)
  | concat (a b : Expr)
  | minus (a : Expr) (n : Nat)
  | neg (a : Expr)
  | cast (a : Expr) (type : CastType)
  | convert (a : Expr) (type : Conversion)
  | asText (a : Expr)
  | collate (a : Expr) (c : Collation)
  | jsonExtract (a : Expr) (path : List Name)
  | arrow (a : Expr) (key : Name)
  | arrowText (a : Expr) (key : Name)
  | datePart (form : DateForm) (part : Name) (a : Expr)
  | caseWhen (c₁ : Pred) (e₁ : Expr) (c₂ : Pred) (e₂ e₃ : Expr)

inductive Pred where
  | const (b : Bool)
  | cmp (a : Expr) (op : Op) (b : Expr)
  | isNull (a : Expr)
  | isNotNull (a : Expr)
  | isTrue (a : Expr)
  | not (p : Pred)
  /-- `NOT` written with no blank before its parenthesis. -/
  | notTight (p : Pred)
  | paren (p : Pred)
  | and (p q : Pred)
  | or (p q : Pred)
  | inList (a : Expr) (ks : List Nat)
  | like (op : MatchOp) (a b : Expr)
  | existsIn (u : Unnest) (item : Name) (arr : Expr) (p : Pred)
  | notExistsIn (u : Unnest) (item : Name) (arr : Expr) (p : Pred)
  | countIn (u : Unnest) (item : Name) (arr : Expr) (p : Pred) (op : Op) (n : Nat)

end

/-! ### Text

A text is kept as a list of pieces until the very end, so that the placeholders in
it can be listed from left to right.
-/

inductive Piece where
  | text (s : Name)
  | hole (k : Nat)

def lit (s : String) (h : '?' ∉ s.toList := by decide) : Piece := .text ⟨s, h⟩

def digits (n : Nat) : Piece :=
  .text ⟨toString n, by
    intro h
    have hmem : '?' ∈ Nat.toDigits 10 n := by simpa using h
    exact absurd (Nat.isDigit_of_mem_toDigits (by decide) (by decide) hmem) (by decide)⟩

def Op.symbol : Op → Piece
  | eq => lit " = "
  | ne => lit " != "
  | lt => lit " < "
  | le => lit " <= "
  | gt => lit " > "
  | ge => lit " >= "

def Fn.symbol : Fn → Piece
  | unixTimestamp => lit "UNIX_TIMESTAMP"
  | lower => lit "memos_unicode_lower"
  | length => lit "LENGTH"
  | lengthLower => lit "length"
  | charLength => lit "CHAR_LENGTH"
  | jsonArrayLength => lit "json_array_length"
  | jsonArrayLengthUpper => lit "JSON_ARRAY_LENGTH"
  | jsonLength => lit "JSON_LENGTH"
  | jsonbArrayLength => lit "jsonb_array_length"
  | jsonUnquote => lit "JSON_UNQUOTE"
  | jsonType => lit "JSON_TYPE"

def Fn₂.symbol : Fn₂ → Piece
  | coalesce => lit "COALESCE"
  | concat => lit "CONCAT"
  | instr => lit "instr"
  | substr => lit "substr"

def CastType.symbol : CastType → Piece
  | integer => lit "INTEGER"
  | signed => lit "SIGNED"
  | binary => lit "BINARY"

def Conversion.symbol : Conversion → Piece
  | boolean => lit "boolean"
  | bigint => lit "bigint"

def Collation.symbol : Collation → Piece
  | binary => lit "BINARY"
  | posix => lit "\"C\""

def MatchOp.symbol : MatchOp → Piece × Piece
  | like => (lit " LIKE ", lit "")
  | ilike => (lit " ILIKE ", lit "")
  | likeBackslash => (lit " LIKE ", lit " ESCAPE '\\'")
  | likeBang => (lit " LIKE ", lit " ESCAPE '!'")
  | tilde => (lit " ~ ", lit "")
  | regexp => (lit " REGEXP ", lit "")

def DateForm.wrap (part : Name) (a : List Piece) : DateForm → List Piece
  | strftime => [lit "strftime('", .text part, lit "', "] ++ a ++ [lit ", 'unixepoch')"]
  | extract =>
    [lit "EXTRACT(", .text part, lit " FROM to_timestamp("] ++ a ++ [lit ") AT TIME ZONE 'UTC')"]
  | function => [.text part, lit "("] ++ a ++ [lit ")"]

def Unnest.wrap (item : Name) (arr : List Piece) : Unnest → List Piece
  | jsonEach => [lit "json_each("] ++ arr ++ [lit ") AS ", .text item]
  | jsonTable =>
    [lit "JSON_TABLE("] ++ arr ++
      [lit ", '$[*]' COLUMNS (value LONGTEXT PATH '$')) AS ", .text item]
  | jsonbElements =>
    [lit "jsonb_array_elements_text("] ++ arr ++ [lit ") AS ", .text item, lit "(value)"]

mutual

def Expr.pieces : Expr → List Piece
  | .column true t n => [lit "`", .text t, lit "`.`", .text n, lit "`"]
  | .column false t n => [.text t, lit ".", .text n]
  | .element n => [.text n]
  | .arg k => [.hole k]
  | .null => [lit "NULL"]
  | .str s => [lit "'", .text s, lit "'"]
  | .int n => [digits n]
  | .bool b => [if b then lit "true" else lit "false"]
  | .jsonBool b => [lit "CAST('", if b then lit "true" else lit "false", lit "' AS JSON)"]
  | .emptyArray jsonb => [if jsonb then lit "'[]'::jsonb" else lit "JSON_ARRAY()"]
  | .call f a => [f.symbol, lit "("] ++ a.pieces ++ [lit ")"]
  | .call₂ f a b => [f.symbol, lit "("] ++ a.pieces ++ [lit ", "] ++ b.pieces ++ [lit ")"]
  | .concat a b => [lit "("] ++ a.pieces ++ [lit " || "] ++ b.pieces ++ [lit ")"]
  | .minus a n => [lit "("] ++ a.pieces ++ [lit " - ", digits n, lit ")"]
  | .neg a => [lit "-"] ++ a.pieces
  | .cast a type => [lit "CAST("] ++ a.pieces ++ [lit " AS ", type.symbol, lit ")"]
  | .convert a type => [lit "("] ++ a.pieces ++ [lit ")::", type.symbol]
  | .asText a => a.pieces ++ [lit "::text"]
  | .collate a c => [lit "("] ++ a.pieces ++ [lit " COLLATE ", c.symbol, lit ")"]
  | .jsonExtract a path =>
    [lit "JSON_EXTRACT("] ++ a.pieces ++
      [lit ", '$."] ++ (path.map Piece.text).intersperse (lit ".") ++ [lit "')"]
  | .arrow a key => a.pieces ++ [lit "->'", .text key, lit "'"]
  | .arrowText a key => a.pieces ++ [lit "->>'", .text key, lit "'"]
  | .datePart form part a => form.wrap part a.pieces
  | .caseWhen c₁ e₁ c₂ e₂ e₃ =>
    [lit "CASE WHEN "] ++ c₁.pieces ++ [lit " THEN "] ++ e₁.pieces ++
      [lit " WHEN "] ++ c₂.pieces ++ [lit " THEN "] ++ e₂.pieces ++
      [lit " ELSE "] ++ e₃.pieces ++ [lit " END"]

def Pred.pieces : Pred → List Piece
  | .const b => [if b then lit "1 = 1" else lit "1 = 0"]
  | .cmp a op b => a.pieces ++ [op.symbol] ++ b.pieces
  | .isNull a => a.pieces ++ [lit " IS NULL"]
  | .isNotNull a => a.pieces ++ [lit " IS NOT NULL"]
  | .isTrue a => a.pieces ++ [lit " IS TRUE"]
  | .not p => [lit "NOT ("] ++ p.pieces ++ [lit ")"]
  | .notTight p => [lit "NOT("] ++ p.pieces ++ [lit ")"]
  | .paren p => [lit "("] ++ p.pieces ++ [lit ")"]
  | .and p q => p.pieces ++ [lit " AND "] ++ q.pieces
  | .or p q => p.pieces ++ [lit " OR "] ++ q.pieces
  | .inList a ks =>
    a.pieces ++ [lit " IN ("] ++ (ks.map Piece.hole).intersperse (lit ",") ++ [lit ")"]
  | .like op a b => a.pieces ++ [op.symbol.1] ++ b.pieces ++ [op.symbol.2]
  | .existsIn u item arr p =>
    [lit "EXISTS (SELECT 1 FROM "] ++ u.wrap item arr.pieces ++ [lit " WHERE "] ++ p.pieces ++
      [lit ")"]
  | .notExistsIn u item arr p =>
    [lit "NOT EXISTS (SELECT 1 FROM "] ++ u.wrap item arr.pieces ++ [lit " WHERE "] ++ p.pieces ++
      [lit ")"]
  | .countIn u item arr p op n =>
    [lit "(SELECT COUNT(*) FROM "] ++ u.wrap item arr.pieces ++ [lit " WHERE "] ++ p.pieces ++
      [lit ")", op.symbol, digits n]

end

/-- The text of a piece, given how the engine writes the placeholder for argument `k`. -/
def Piece.toText (placeholder : Nat → String) : Piece → String
  | .text s => s.text
  | .hole k => placeholder k

def textOf (placeholder : Nat → String) (ps : List Piece) : String :=
  String.join (ps.map (Piece.toText placeholder))

def Piece.position? : Piece → Option Nat
  | .text _ => none
  | .hole k => some k

def holesOf (ps : List Piece) : List Nat := ps.filterMap Piece.position?

def Pred.toText (placeholder : Nat → String) (p : Pred) : String := textOf placeholder p.pieces

def Expr.holes (e : Expr) : List Nat := holesOf e.pieces

def Pred.holes (p : Pred) : List Nat := holesOf p.pieces

def questionMarks (s : String) : Nat := s.toList.count '?'

/-! ### Value

What an engine does with operands of a given type is its own business (collations,
implicit conversions, pattern languages, calendars) and comes in as `Primitives`.
What the fragment fixes is how `NULL` travels, what is a Boolean, and how a document
is taken apart.
-/

structure Primitives where
  toText : Value → String
  toInt : Value → Int
  /-- Explicit conversion of a text other than `true` and `false` to a Boolean. -/
  toBool : String → Bool
  /-- Whether `IS TRUE` accepts a value that is neither a number nor a Boolean. -/
  truthy : Value → Bool
  /-- Comparison of texts under the column's collation, and of mixed operands. -/
  compare : Op → Value → Value → Bool
  matchPattern : MatchOp → String → String → Bool
  fold : String → String
  instr : String → String → Int
  substr : String → Int → String
  jsonLength : Value → Int
  unquote : Value → String
  /-- A part of a date, or nothing when the timestamp is outside the calendar. -/
  datePart : DateForm → String → Value → Option Int
  compiles : String → Bool
  /-- No collation confuses the names of two JSON types. -/
  typeNames_differ : compare .ne (.text "OBJECT") (.text "NULL") = true
  typeNames_agree : compare .ne (.text "NULL") (.text "NULL") = false

/-- An engine: its primitives, and the points on which engines differ. -/
structure Engine extends Primitives where
  /-- Whether `JSON_EXTRACT` turns a JSON scalar into an SQL one. -/
  extractsScalars : Bool
  emptyInList : Bool
  matchNull : MatchOp → Truth

/-- What a condition is evaluated over: the joined row, the bound arguments, and
inside a subquery the element at hand. -/
structure Env where
  column : String → String → Value
  arg : Nat → Value
  element : Value := .null

def Op.onInt : Op → Int → Int → Bool
  | eq, a, b => decide (a = b)
  | ne, a, b => decide (a ≠ b)
  | lt, a, b => decide (a < b)
  | le, a, b => decide (a ≤ b)
  | gt, a, b => decide (b < a)
  | ge, a, b => decide (b ≤ a)

def Op.onBool (op : Op) (a b : Bool) : Bool := op.onInt (if a then 1 else 0) (if b then 1 else 0)

namespace Engine

variable (E : Engine)

/-- The SQL value of a JSON scalar; arrays and objects stay documents. -/
def ofScalar : Json → Value
  | .null => .null
  | .bool b => .int (if b then 1 else 0)
  | .num n => .int n
  | .str s => .text s
  | .arr items => .json (.arr items)
  | .obj fields => .json (.obj fields)

def extracted (j : Json) : Value := if E.extractsScalars then ofScalar j else .json j

def textMember : Json → Value
  | .null => .null
  | .bool b => .text (if b then "true" else "false")
  | .str s => .text s
  | j => .text (E.toText (.json j))

def intOf : Value → Int
  | .int n => n
  | v => E.toInt v

def textOf : Value → String
  | .text s => s
  | .binary s => s
  | v => E.toText v

def elementsOf : Value → List Value
  | .json (.arr items) => items.map ofScalar
  | _ => []

def applyFn : Fn → Value → Value
  | .unixTimestamp, .timestamp n => .int n
  | .unixTimestamp, v => .int (E.toInt v)
  | .lower, .text s => .text (E.fold s)
  | .lower, v => v
  | .length, v => .int (E.textOf v).length
  | .lengthLower, v => .int (E.textOf v).length
  | .charLength, v => .int (E.textOf v).length
  | .jsonUnquote, .json (.str s) => .text s
  | .jsonUnquote, v => .text (E.unquote v)
  | .jsonType, .json j => .text j.typeName
  | .jsonType, v => .text (E.textOf v)
  | _, .json (.arr items) => .int items.length
  | _, v => .int (E.jsonLength v)

def applyFn₂ : Fn₂ → Value → Value → Value
  | .coalesce, .null, b => b
  | .coalesce, a, _ => a
  | .concat, a, b => Value.strict₂ (fun v w => .text (E.textOf v ++ E.textOf w)) a b
  | .instr, a, b => Value.strict₂ (fun v w => .int (E.instr (E.textOf v) (E.textOf w))) a b
  | .substr, a, b => Value.strict₂ (fun v w => .text (E.substr (E.textOf v) (E.intOf w))) a b

def partOf (form : DateForm) (part : String) : Value → Option Int
  | .null => none
  | v => E.datePart form part v

def applyCast (v : Value) : CastType → Value
  | .integer => .int (E.intOf v)
  | .signed => .int (E.intOf v)
  | .binary => .binary (E.textOf v)

def applyConversion : Value → Conversion → Value
  | .text s, .boolean =>
    .bool (if s = "true" then true else if s = "false" then false else E.toBool s)
  | v, .boolean => .bool (E.truthy v)
  | v, .bigint => .int (E.intOf v)

/-- A comparison, unknown as soon as one side is missing. -/
def compareValues (op : Op) : Value → Value → Truth
  | .null, _ => .unknown
  | _, .null => .unknown
  | .int a, .int b => .ofBool (op.onInt a b)
  | .bool a, .bool b => .ofBool (op.onBool a b)
  | .json (.bool a), .json (.bool b) => .ofBool (op.onBool a b)
  | .binary a, .binary b =>
    match op with
    | .eq => .ofBool (decide (a = b))
    | .ne => .ofBool (decide (a ≠ b))
    | op => .ofBool (E.compare op (.binary a) (.binary b))
  | a, b => .ofBool (E.compare op a b)

def isTrueValue : Value → Bool
  | .null => false
  | .int n => decide (n ≠ 0)
  | .bool b => b
  | v => E.truthy v

/-- A pattern match; the pattern is never missing in this fragment's use. -/
def matchValues (op : MatchOp) : Value → Value → Truth
  | .null, _ => E.matchNull op
  | _, .null => E.matchNull op
  | a, b => .ofBool (E.matchPattern op (E.textOf a) (E.textOf b))

end Engine

mutual

def Expr.eval (E : Engine) (env : Env) : Expr → Value
  | .column _ t n => env.column t.text n.text
  | .element _ => env.element
  | .arg k => env.arg k
  | .null => .null
  | .str s => .text s.text
  | .int n => .int n
  | .bool b => .bool b
  | .jsonBool b => .json (.bool b)
  | .emptyArray _ => .json (.arr [])
  | .call f a => (a.eval E env).strict (E.applyFn f)
  | .call₂ f a b => E.applyFn₂ f (a.eval E env) (b.eval E env)
  | .concat a b => E.applyFn₂ .concat (a.eval E env) (b.eval E env)
  | .minus a n => (a.eval E env).strict fun v => .int (E.intOf v - n)
  | .neg a => (a.eval E env).strict fun v => .int (- E.intOf v)
  | .cast a type => (a.eval E env).strict fun v => E.applyCast v type
  | .convert a type => (a.eval E env).strict fun v => E.applyConversion v type
  | .asText a => (a.eval E env).strict fun v => .text (E.textOf v)
  | .collate a _ => (a.eval E env).strict fun v => .binary (E.textOf v)
  | .jsonExtract a path =>
    match a.eval E env with
    | .json j => ((j.path? (path.map Name.text)).map E.extracted).getD .null
    | _ => .null
  | .arrow a key =>
    match a.eval E env with
    | .json j => ((j.get? key.text).map Value.json).getD .null
    | _ => .null
  | .arrowText a key =>
    match a.eval E env with
    | .json j => ((j.get? key.text).map E.textMember).getD .null
    | _ => .null
  | .datePart form part a => .ofInt? (E.partOf form part.text (a.eval E env))
  | .caseWhen c₁ e₁ c₂ e₂ e₃ =>
    if (c₁.eval E env).isTrue then e₁.eval E env
    else if (c₂.eval E env).isTrue then e₂.eval E env
    else e₃.eval E env

def Pred.eval (E : Engine) (env : Env) : Pred → Truth
  | .const b => .ofBool b
  | .cmp a op b => E.compareValues op (a.eval E env) (b.eval E env)
  | .isNull a => .ofBool (a.eval E env).isNull
  | .isNotNull a => .ofBool (!(a.eval E env).isNull)
  | .isTrue a => .ofBool (E.isTrueValue (a.eval E env))
  | .not p => (p.eval E env).not
  | .notTight p => (p.eval E env).not
  | .paren p => p.eval E env
  | .and p q => (p.eval E env).and (q.eval E env)
  | .or p q => (p.eval E env).or (q.eval E env)
  | .inList a ks => .any (ks.map fun k => E.compareValues .eq (a.eval E env) (env.arg k))
  | .like op a b => E.matchValues op (a.eval E env) (b.eval E env)
  | .existsIn _ _ arr p =>
    .ofBool ((Engine.elementsOf (arr.eval E env)).any fun v =>
      (p.eval E { env with element := v }).isTrue)
  | .notExistsIn _ _ arr p =>
    .ofBool (!(Engine.elementsOf (arr.eval E env)).any fun v =>
      (p.eval E { env with element := v }).isTrue)
  | .countIn _ _ arr p op n =>
    .ofBool (op.onInt ((Engine.elementsOf (arr.eval E env)).countP fun v =>
      (p.eval E { env with element := v }).isTrue) n)

end

/-- Whether the engine runs the condition at all: the list of an `IN` may have to be
non-empty, and a regular expression has to compile. -/
def Pred.accepted (E : Engine) (env : Env) : Pred → Bool
  | .not p => p.accepted E env
  | .notTight p => p.accepted E env
  | .paren p => p.accepted E env
  | .and p q => p.accepted E env && q.accepted E env
  | .or p q => p.accepted E env && q.accepted E env
  | .inList _ ks => !ks.isEmpty || E.emptyInList
  | .like .tilde _ b => E.compiles (E.textOf (b.eval E env))
  | .like .regexp _ b => E.compiles (E.textOf (b.eval E env))
  | .existsIn _ _ _ p => p.accepted E env
  | .notExistsIn _ _ _ p => p.accepted E env
  | .countIn _ _ _ p _ _ => p.accepted E env
  | _ => true

/-- The row is selected by a `WHERE` clause with this condition.  A statement the engine
refuses selects nothing. -/
def Pred.selects (E : Engine) (env : Env) (p : Pred) : Bool :=
  p.accepted E env && (p.eval E env).isTrue

end Sql

/-
Placeholders of a text, and values that do not depend on them.

The question marks of a text are its placeholders (`questionMarks_toText`), because
every other piece of it is a `Name` or a number.  The rest is the simp set that lists
the placeholders of each construct from those of its parts.
-/

namespace Sql

/-! ### Placeholders of the constructs -/

@[simp] theorem holesOf_nil : holesOf [] = [] := rfl

@[simp] theorem holesOf_lit (s : String) (h) (ps : List Piece) :
    holesOf (lit s h :: ps) = holesOf ps := rfl

@[simp] theorem holesOf_text (s : Name) (ps : List Piece) :
    holesOf (.text s :: ps) = holesOf ps := rfl

@[simp] theorem holesOf_digits (n : Nat) (ps : List Piece) :
    holesOf (digits n :: ps) = holesOf ps := rfl

@[simp] theorem holesOf_hole (k : Nat) (ps : List Piece) :
    holesOf (.hole k :: ps) = k :: holesOf ps := rfl

@[simp] theorem holesOf_append (ps qs : List Piece) :
    holesOf (ps ++ qs) = holesOf ps ++ holesOf qs := List.filterMap_append

@[simp] theorem holesOf_ite (b : Bool) (s t) (hs ht) (ps : List Piece) :
    holesOf ((if b then lit s hs else lit t ht) :: ps) = holesOf ps := by cases b <;> rfl

@[simp] theorem holesOf_op (op : Op) (ps : List Piece) :
    holesOf (op.symbol :: ps) = holesOf ps := by cases op <;> rfl

@[simp] theorem holesOf_fn (f : Fn) (ps : List Piece) :
    holesOf (f.symbol :: ps) = holesOf ps := by cases f <;> rfl

@[simp] theorem holesOf_fn₂ (f : Fn₂) (ps : List Piece) :
    holesOf (f.symbol :: ps) = holesOf ps := by cases f <;> rfl

@[simp] theorem holesOf_castType (t : CastType) (ps : List Piece) :
    holesOf (t.symbol :: ps) = holesOf ps := by cases t <;> rfl

@[simp] theorem holesOf_conversion (t : Conversion) (ps : List Piece) :
    holesOf (t.symbol :: ps) = holesOf ps := by cases t <;> rfl

@[simp] theorem holesOf_collation (c : Collation) (ps : List Piece) :
    holesOf (c.symbol :: ps) = holesOf ps := by cases c <;> rfl

@[simp] theorem holesOf_matchOp (op : MatchOp) (ps : List Piece) :
    holesOf (op.symbol.1 :: ps) = holesOf ps ∧ holesOf (op.symbol.2 :: ps) = holesOf ps := by
  cases op <;> exact ⟨rfl, rfl⟩

@[simp] theorem holesOf_unnest (u : Unnest) (item : Name) (arr : List Piece) :
    holesOf (u.wrap item arr) = holesOf arr := by cases u <;> simp [Unnest.wrap]

@[simp] theorem holesOf_dateForm (f : DateForm) (part : Name) (a : List Piece) :
    holesOf (f.wrap part a) = holesOf a := by cases f <;> simp [DateForm.wrap]

theorem holesOf_intersperse (sep : Name) (ps : List Piece) :
    holesOf (ps.intersperse (.text sep)) = holesOf ps := by
  induction ps with
  | nil => rfl
  | cons p rest ih =>
      cases rest with
      | nil => rfl
      | cons q rest =>
          have hcons : holesOf (p :: (q :: rest).intersperse (.text sep)) =
              holesOf (p :: q :: rest) := by
            rw [← List.singleton_append, holesOf_append, ih, ← holesOf_append]; rfl
          exact hcons

/-! ### Placeholders, construct by construct -/

attribute [simp] Expr.pieces Pred.pieces Expr.eval Pred.eval Pred.accepted

namespace Expr

@[simp] theorem holes_column (q : Bool) (t n : Name) : (column q t n).holes = [] := by
  cases q <;> simp [holes]

@[simp] theorem holes_element (n : Name) : (element n).holes = [] := rfl

@[simp] theorem holes_arg (k : Nat) : (arg k).holes = [k] := rfl

@[simp] theorem holes_null : null.holes = [] := rfl

@[simp] theorem holes_str (s : Name) : (str s).holes = [] := rfl

@[simp] theorem holes_int (n : Nat) : (int n).holes = [] := rfl

@[simp] theorem holes_bool (b : Bool) : (bool b).holes = [] := by simp [holes]

@[simp] theorem holes_jsonBool (b : Bool) : (jsonBool b).holes = [] := by simp [holes]

@[simp] theorem holes_emptyArray (b : Bool) : (emptyArray b).holes = [] := by
  simp [holes]

@[simp] theorem holes_call (f : Fn) (a : Expr) : (call f a).holes = a.holes := by
  simp [holes]

@[simp] theorem holes_call₂ (f : Fn₂) (a b : Expr) :
    (call₂ f a b).holes = a.holes ++ b.holes := by simp [holes]

@[simp] theorem holes_concat (a b : Expr) : (concat a b).holes = a.holes ++ b.holes := by
  simp [holes]

@[simp] theorem holes_minus (a : Expr) (n : Nat) : (minus a n).holes = a.holes := by
  simp [holes]

@[simp] theorem holes_neg (a : Expr) : (neg a).holes = a.holes := by simp [holes]

@[simp] theorem holes_cast (a : Expr) (t : CastType) : (cast a t).holes = a.holes := by
  simp [holes]

@[simp] theorem holes_convert (a : Expr) (t : Conversion) : (convert a t).holes = a.holes := by
  simp [holes]

@[simp] theorem holes_asText (a : Expr) : (asText a).holes = a.holes := by simp [holes]

@[simp] theorem holes_collate (a : Expr) (c : Collation) : (collate a c).holes = a.holes := by
  simp [holes]

@[simp] theorem holes_jsonExtract (a : Expr) (path : List Name) :
    (jsonExtract a path).holes = a.holes := by
  have hpath : holesOf ((path.map Piece.text).intersperse (lit ".")) = [] := by
    unfold lit
    rw [holesOf_intersperse]
    induction path with
    | nil => rfl
    | cons key rest ih => rw [List.map_cons, holesOf_text, ih]
  simp [holes, hpath]

@[simp] theorem holes_arrow (a : Expr) (key : Name) : (arrow a key).holes = a.holes := by
  simp [holes]

@[simp] theorem holes_arrowText (a : Expr) (key : Name) : (arrowText a key).holes = a.holes := by
  simp [holes]

@[simp] theorem holes_datePart (f : DateForm) (part : Name) (a : Expr) :
    (datePart f part a).holes = a.holes := by simp [holes]

@[simp] theorem holes_caseWhen (c₁ : Pred) (e₁ : Expr) (c₂ : Pred) (e₂ e₃ : Expr) :
    (caseWhen c₁ e₁ c₂ e₂ e₃).holes =
      c₁.holes ++ e₁.holes ++ c₂.holes ++ e₂.holes ++ e₃.holes := by
  simp [holes, Pred.holes]

end Expr

namespace Pred

@[simp] theorem holes_const (b : Bool) : (const b).holes = [] := by simp [holes]

@[simp] theorem holes_cmp (a : Expr) (op : Op) (b : Expr) :
    (cmp a op b).holes = a.holes ++ b.holes := by simp [holes, Expr.holes]

@[simp] theorem holes_isNull (a : Expr) : (isNull a).holes = a.holes := by
  simp [holes, Expr.holes]

@[simp] theorem holes_isNotNull (a : Expr) : (isNotNull a).holes = a.holes := by
  simp [holes, Expr.holes]

@[simp] theorem holes_isTrue (a : Expr) : (isTrue a).holes = a.holes := by
  simp [holes, Expr.holes]

@[simp] theorem holes_not (p : Pred) : (not p).holes = p.holes := by simp [holes]

@[simp] theorem holes_notTight (p : Pred) : (notTight p).holes = p.holes := by
  simp [holes]

@[simp] theorem holes_paren (p : Pred) : (paren p).holes = p.holes := by simp [holes]

@[simp] theorem holes_and (p q : Pred) : (and p q).holes = p.holes ++ q.holes := by
  simp [holes]

@[simp] theorem holes_or (p q : Pred) : (or p q).holes = p.holes ++ q.holes := by
  simp [holes]

@[simp] theorem holes_inList (a : Expr) (ks : List Nat) :
    (inList a ks).holes = a.holes ++ ks := by
  have hks : holesOf ((ks.map Piece.hole).intersperse (lit ",")) = ks := by
    unfold lit
    rw [holesOf_intersperse]
    induction ks with
    | nil => rfl
    | cons k rest ih => rw [List.map_cons, holesOf_hole, ih]
  simp [holes, Expr.holes, hks]

@[simp] theorem holes_like (op : MatchOp) (a b : Expr) :
    (like op a b).holes = a.holes ++ b.holes := by simp [holes, Expr.holes]

@[simp] theorem holes_existsIn (u : Unnest) (item : Name) (arr : Expr) (p : Pred) :
    (existsIn u item arr p).holes = arr.holes ++ p.holes := by
  simp [holes, Expr.holes]

@[simp] theorem holes_notExistsIn (u : Unnest) (item : Name) (arr : Expr) (p : Pred) :
    (notExistsIn u item arr p).holes = arr.holes ++ p.holes := by
  simp [holes, Expr.holes]

@[simp] theorem holes_countIn (u : Unnest) (item : Name) (arr : Expr) (p : Pred) (op : Op)
    (n : Nat) : (countIn u item arr p op n).holes = arr.holes ++ p.holes := by
  simp [holes, Expr.holes]

end Pred

/-! ### Question marks -/

theorem questionMarks_textOf (ps : List Piece) :
    questionMarks (textOf (fun _ => "?") ps) = (holesOf ps).length := by
  unfold questionMarks textOf
  induction ps with
  | nil => rfl
  | cons piece rest ih =>
      rw [List.map_cons, String.join_cons, String.toList_append, List.count_append, ih]
      cases piece with
      | text s =>
          show List.count '?' s.text.toList + _ = _
          rw [List.count_eq_zero_of_not_mem s.unmarked, Nat.zero_add, holesOf_text]
      | hole k =>
          have hmark : List.count '?' "?".toList = 1 := by decide
          show List.count '?' "?".toList + _ = _
          rw [hmark, holesOf_hole, List.length_cons, Nat.add_comm]

theorem questionMarks_toText (p : Pred) :
    questionMarks (p.toText fun _ => "?") = p.holes.length := questionMarks_textOf p.pieces

end Sql
