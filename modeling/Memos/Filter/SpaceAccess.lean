/-
The check that a filter does not probe spaces.

A filter may ask which memos are in a space, and answering that question for a space
the caller cannot read would reveal its members' memos one bit at a time.  Before a
filter runs, `server/router/api/v1/filter_access.go` walks its tree, collects the
names the space field is compared with, refuses every other use of the field, and
resolves each name with the caller's rights.
-/
import Mathlib.Data.List.Sort
import Memos.Filter.Render

namespace Memos.Filter

mutual

def valueReferencesSpace : ValueExpr → Bool
  | .fieldRef name => name == "space"
  | .function _ args => anyReferencesSpace args
  | .fieldAccessor field _ => field == "space"
  | .literal _ => false

def anyReferencesSpace : List ValueExpr → Bool
  | [] => false
  | argument :: rest => valueReferencesSpace argument || anyReferencesSpace rest

end

/-- A name put in the set, once. -/
def insertName (names : List String) (name : String) : List String :=
  if name ∈ names then names else names ++ [name]

/-- A comparison in which the space field takes part. -/
def collectComparison (left : ValueExpr) (op : Sql.Op) (right : ValueExpr) (negated : Bool)
    (names : List String) : Except String (List String) :=
  if !valueReferencesSpace left && !valueReferencesSpace right then .ok names
  else
    match left with
    | .fieldRef field =>
      if field ≠ "space" || negated || op ≠ .eq then
        .error "space only supports a non-negated equality comparison"
      else
        match right with
        | .literal .null => .ok names
        | .literal (.string name) => .ok (insertName names name)
        | _ => .error "space must be compared with a resource name or null"
    | _ => .error "space only supports a non-negated equality comparison"

def collectSpaceFilterNames : Condition → Bool → List String → Except String (List String)
  | .logical _ left right, negated, names => do
    let names ← collectSpaceFilterNames left negated names
    collectSpaceFilterNames right negated names
  | .not expr, _, names => collectSpaceFilterNames expr true names
  | .comparison left op right, negated, names => collectComparison left op right negated names
  | .inList left values, _, names =>
    if valueReferencesSpace left || values.any valueReferencesSpace then
      .error "space does not support the in operator"
    else .ok names
  | .elementIn element field, _, names =>
    if field == "space" || valueReferencesSpace element then
      .error "space does not support the in operator"
    else .ok names
  | .fieldPredicate field, _, names =>
    if field == "space" then .error "space must be compared with a resource name or null"
    else .ok names
  | .textMatch field _ _, _, names =>
    if field == "space" then .error "space does not support text matching" else .ok names
  | .regex field _, _, names =>
    if field == "space" then .error "space does not support regular expressions" else .ok names
  | .listComprehension _ field _ _, _, names =>
    if field == "space" then .error "space does not support list operations" else .ok names
  | .constant _, _, names => .ok names

def resolveAll (resolve : String → Except String Unit) : List String → Except String Unit
  | [] => .ok ()
  | name :: rest => do
    resolve name
    resolveAll resolve rest

/-- The whole check on a parsed filter.  `resolve` is `resolveReadableSpaceByName` for the
caller: it fails for a space the caller may not read. -/
def validateFilterSpaceAccess (R : Renderer) (resolve : String → Except String Unit)
    (condition : Condition) : Except String Unit := do
  let _ ← (R.render condition).mapError ("invalid filter: " ++ ·)
  let names ← (collectSpaceFilterNames condition false []).mapError ("invalid filter: " ++ ·)
  resolveAll resolve (names.insertionSort (· ≤ ·))

/-! ### Occurrences

Where a field occurs in a condition, said without reference to the check.
-/

/-- The field occurs in a value expression, at whatever depth. -/
inductive ValueExpr.Mentions (field : String) : ValueExpr → Prop
  | ref : Mentions field (.fieldRef field)
  | accessor (accessor : String) : Mentions field (.fieldAccessor field accessor)
  | argument {name : String} {args : List ValueExpr} {a : ValueExpr} (mem : a ∈ args)
      (h : Mentions field a) : Mentions field (.function name args)

/-- The field occurs in a leaf of a condition tree. -/
inductive Condition.LeafMentions (field : String) : Condition → Prop
  | predicate : LeafMentions field (.fieldPredicate field)
  | left {l op r} (h : l.Mentions field) : LeafMentions field (.comparison l op r)
  | right {l op r} (h : r.Mentions field) : LeafMentions field (.comparison l op r)
  | inLeft {l vs} (h : l.Mentions field) : LeafMentions field (.inList l vs)
  | inValue {l vs v} (mem : v ∈ vs) (h : v.Mentions field) : LeafMentions field (.inList l vs)
  | element {e name} (h : e.Mentions field) : LeafMentions field (.elementIn e name)
  | list (e) : LeafMentions field (.elementIn e field)
  | text (mode value) : LeafMentions field (.textMatch field mode value)
  | regex (pattern) : LeafMentions field (.regex field pattern)
  | comprehension (kind iterVar pred) :
      LeafMentions field (.listComprehension kind field iterVar pred)

/-- `LeafIn leaf negated c`: the leaf occurs in `c`, under some negation or under none. -/
inductive LeafIn (leaf : Condition) : Bool → Condition → Prop
  | here : LeafIn leaf false leaf
  | left {op l r negated} (h : LeafIn leaf negated l) : LeafIn leaf negated (.logical op l r)
  | right {op l r negated} (h : LeafIn leaf negated r) : LeafIn leaf negated (.logical op l r)
  | under {e negated} (h : LeafIn leaf negated e) : LeafIn leaf true (.not e)

def spaceEquals (lit : Literal) : Condition :=
  .comparison (.fieldRef "space") .eq (.literal lit)

end Memos.Filter
