/-
The request that a tool call becomes.

An operation has a path with placeholders, and the arguments of the call say what stands in
their places.  An argument may be the bare id or the canonical name of the resource, which
starts with the names of its parents.  A string is its bytes.
-/
import Memos.Lib.Percent
import Memos.Lib.Template
import Memos.Lib.Scan

namespace Memos.Mcp

open Find Template

abbrev Text := List UInt8

def text (s : String) : Text := s.toList.map fun c => UInt8.ofNat c.toNat

def slash : UInt8 := 0x2F
def openBrace : UInt8 := 0x7B
def closeBrace : UInt8 := 0x7D
def quote : UInt8 := 0x22

/-! ### Arguments -/

/-- What an argument may be.  A float comes with its decimal digits and any other value with
its JSON, when it has one. -/
inductive Value where
  | null
  | string (s : Text)
  | bool (b : Bool)
  | int (n : Int)
  | float (digits : Text)
  | json (data : Option Text)
  deriving DecidableEq

def valueToString : Value → Text
  | .null => text "null"
  | .string s => s
  | .bool b => text (if b then "true" else "false")
  | .int n => text (toString n)
  | .float digits => digits
  | .json none => []
  | .json (some data) => Trim.trim (fun b => decide (b = quote)) data

/-- A map: the first entry of a key counts. -/
abbrev Arguments := List (Text × Value)

structure openAPIParameter where
  Name : Text
  In : Text

structure openAPIOperation where
  Parameters : List openAPIParameter
  Path : Text

/-! ### Escaping -/

/-- The bytes that a path segment may have as they are. -/
def keepInSegment (b : UInt8) : Bool :=
  (0x61 ≤ b && b ≤ 0x7A) || (0x41 ≤ b && b ≤ 0x5A) || (0x30 ≤ b && b ≤ 0x39)
    || [0x2D, 0x5F, 0x2E, 0x7E, 0x24, 0x26, 0x2B, 0x3A, 0x3D, 0x40].contains b

def PathEscape (s : Text) : Text := Percent.escape keepInSegment s

def PathUnescape (s : Text) : Option Text := Percent.unescape s

/-! ### Placeholders -/

theorem length_drop_lt {path : Text} {start stop : Nat} (found : index [openBrace] path = some start) :
    (path.drop (start + stop + 1)).length < path.length := by
  have le := (index_standsAt found).length_le (List.cons_ne_nil _ _)
  rw [List.length_singleton] at le
  rw [List.length_drop]
  omega

def pathPlaceholderNames (path : Text) : List Text :=
  match _ : index [openBrace] path with
  | none => []
  | some start =>
    match index [closeBrace] (path.drop start) with
    | none => []
    | some endOffset =>
      ((path.take (start + endOffset)).drop (start + 1)) ::
        pathPlaceholderNames (path.drop (start + endOffset + 1))
termination_by path.length
decreasing_by exact length_drop_lt ‹_›

def isReserved (b : UInt8) : Bool := b = slash || b = openBrace || b = closeBrace

/-- The placeholders that are left, one less for each that is replaced. -/
theorem count_replaced_lt {path id : Text} {start stop : Nat}
    (found : index [openBrace] path = some start) (bare : id.any isReserved = false) :
    (path.take start ++ id ++ path.drop (start + stop + 1)).count openBrace < path.count openBrace := by
  have here := standsAt_singleton.mp (index_standsAt found)
  have none : id.count openBrace = 0 := by
    rw [List.count_eq_zero]
    intro mem
    have := List.any_eq_false.mp bare openBrace mem
    exact this (by decide)
  have split : path = path.take start ++ openBrace :: path.drop (start + 1) := by
    obtain ⟨lt, same⟩ := List.getElem?_eq_some_iff.mp here
    conv_lhs => rw [← List.take_append_drop start path, List.drop_eq_getElem_cons lt, same]
  have less : (path.drop (start + stop + 1)).count openBrace ≤ (path.drop (start + 1)).count openBrace := by
    have drop : path.drop (start + stop + 1) = (path.drop (start + 1)).drop stop := by
      rw [List.drop_drop, Nat.add_right_comm]
    rw [drop]
    exact (List.drop_sublist stop _).count_le openBrace
  conv_rhs => rw [split]
  rw [List.count_append, List.count_append, List.count_append, none, List.count_cons_self]
  omega

/-- The loop of `resolvedResourceNamePrefix`. -/
def resolvePlaceholders (path : Text) (resolved : List (Text × Text)) : Option Text :=
  match _ : index [openBrace] path with
  | none => some path
  | some start =>
    match index [closeBrace] (path.drop start) with
    | none => none
    | some endOffset =>
      let parameterName := (path.take (start + endOffset)).drop (start + 1)
      match resolved.lookup parameterName with
      | none => none
      | some id =>
        if _ : id ≠ [] ∧ id.any isReserved = false then
          resolvePlaceholders (path.take start ++ id ++ path.drop (start + endOffset + 1)) resolved
        else none
termination_by path.count openBrace
decreasing_by exact count_replaced_lt ‹_› (And.right ‹_›)

def CutPrefix (s pre : Text) : Option Text := if pre <+: s then some (s.drop pre.length) else none

def apiPrefix : Text := text "/api/v1/"

def resolvedResourceNamePrefix (path : Text) (resolved : List (Text × Text)) : Option Text :=
  match CutPrefix path apiPrefix with
  | none => none
  | some path =>
    (resolvePlaceholders path resolved).map (Trim.trim fun b => decide (b = slash))

def trimResourceNamePrefix (path parameterName value : Text) (resolved : List (Text × Text)) : Text :=
  let placeholder := slash :: marked openBrace closeBrace parameterName
  match index placeholder path with
  | none => value
  | some index =>
    match resolvedResourceNamePrefix (path.take index) resolved with
    | none => value
    | some parents =>
      if parents = [] then value
      else
        match CutPrefix value (parents ++ [slash]) with
        | none => value
        | some id => if id = [] ∨ id.contains slash then value else id

/-! ### The path -/

def missingParameter (name : Text) : Text :=
  text "missing required path parameter \"" ++ name ++ [quote]

/-- The parameters of the path have a value each. -/
def checkPathParameters (arguments : Arguments) : List openAPIParameter → Except Text Unit
  | [] => .ok ()
  | parameter :: parameters =>
    if parameter.In ≠ text "path" then checkPathParameters arguments parameters
    else
      match arguments.lookup parameter.Name with
      | none => .error (missingParameter parameter.Name)
      | some value =>
        if value = .null ∨ valueToString value = [] then .error (missingParameter parameter.Name)
        else checkPathParameters arguments parameters

/-- The loop of `substitutePathParameters`: the path so far, and the id of each placeholder. -/
def substitutePlaceholders (template : Text) (arguments : Arguments) :
    List Text → Text → List (Text × Text) → Text × List (Text × Text)
  | [], path, resolved => (path, resolved)
  | name :: names, path, resolved =>
    match arguments.lookup name with
    | none => substitutePlaceholders template arguments names path resolved
    | some value =>
      let id := trimResourceNamePrefix template name (valueToString value) resolved
      substitutePlaceholders template arguments names
        (replaceAll (marked openBrace closeBrace name) (PathEscape id) path) ((name, id) :: resolved)

/-- The path and the ids, as the loop leaves them. -/
def substituted (operation : openAPIOperation) (arguments : Arguments) : Text × List (Text × Text) :=
  substitutePlaceholders operation.Path arguments (pathPlaceholderNames operation.Path) operation.Path []

def substitutePathParameters (operation : openAPIOperation) (arguments : Arguments) :
    Except Text Text := do
  checkPathParameters arguments operation.Parameters
  .ok (substituted operation arguments).1

end Memos.Mcp
