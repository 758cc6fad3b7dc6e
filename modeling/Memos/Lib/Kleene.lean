/-
Three-valued logic, as SQL uses it.

A condition over a row may be true, false or unknown, the last when it compares
against a missing value.  The connectives are Kleene's strong ones, and a row is
kept by a `WHERE` clause only when its condition is true: unknown drops the row
just as false does.

The point of the file is `isTrue_not`: negating a condition keeps exactly the rows
the condition dropped if and only if the condition was decided there.  De Morgan
and double negation hold with no such proviso, because they are equations between
truth values and not statements about rows.
-/
import Mathlib.Tactic.Common

namespace Kleene

inductive Truth where
  | holds
  | fails
  | unknown
  deriving DecidableEq, Repr

namespace Truth

def ofBool : Bool → Truth
  | true => holds
  | false => fails

def not : Truth → Truth
  | holds => fails
  | fails => holds
  | unknown => unknown

def and : Truth → Truth → Truth
  | holds, t => t
  | fails, _ => fails
  | unknown, fails => fails
  | unknown, _ => unknown

def or : Truth → Truth → Truth
  | fails, t => t
  | holds, _ => holds
  | unknown, holds => holds
  | unknown, _ => unknown

def isTrue : Truth → Bool
  | holds => true
  | _ => false

def decided : Truth → Bool
  | unknown => false
  | _ => true

def any : List Truth → Truth
  | [] => fails
  | t :: ts => t.or (any ts)

/-! ### Two-valued operands

Where every operand is decided the connectives are the Boolean ones, so a
condition none of whose leaves can be unknown is an ordinary Boolean expression.
-/

@[simp] theorem isTrue_ofBool (b : Bool) : (ofBool b).isTrue = b := by cases b <;> rfl

@[simp] theorem decided_ofBool (b : Bool) : (ofBool b).decided = true := by cases b <;> rfl

@[simp] theorem not_ofBool (b : Bool) : (ofBool b).not = ofBool (!b) := by cases b <;> rfl

@[simp] theorem and_ofBool (a b : Bool) : (ofBool a).and (ofBool b) = ofBool (a && b) := by
  cases a <;> cases b <;> rfl

@[simp] theorem or_ofBool (a b : Bool) : (ofBool a).or (ofBool b) = ofBool (a || b) := by
  cases a <;> cases b <;> rfl

/-! ### Negation and what a row filter keeps -/

@[simp] theorem not_not (t : Truth) : t.not.not = t := by cases t <;> rfl

@[simp] theorem decided_not (t : Truth) : t.not.decided = t.decided := by cases t <;> rfl

theorem not_and (s t : Truth) : (s.and t).not = s.not.or t.not := by cases s <;> cases t <;> rfl

theorem not_or (s t : Truth) : (s.or t).not = s.not.and t.not := by cases s <;> cases t <;> rfl

@[simp] theorem isTrue_and (s t : Truth) : (s.and t).isTrue = (s.isTrue && t.isTrue) := by
  cases s <;> cases t <;> rfl

@[simp] theorem isTrue_or (s t : Truth) : (s.or t).isTrue = (s.isTrue || t.isTrue) := by
  cases s <;> cases t <;> rfl

@[simp] theorem isTrue_any (ts : List Truth) : (any ts).isTrue = ts.any isTrue := by
  induction ts with
  | nil => rfl
  | cons t rest ih => rw [any, isTrue_or, ih, List.any_cons]

/-- **A negation keeps exactly the rows its operand drops if and only if the operand
is decided.** -/
theorem isTrue_not (t : Truth) :
    (t.not.isTrue = true ↔ ¬ t.isTrue = true) ↔ t.decided = true := by
  cases t <;> simp [not, isTrue, decided]

@[simp] theorem and_holds (t : Truth) : t.and holds = t := by cases t <;> rfl

@[simp] theorem and_fails (t : Truth) : t.and fails = fails := by cases t <;> rfl

@[simp] theorem or_fails (t : Truth) : t.or fails = t := by cases t <;> rfl

@[simp] theorem or_holds (t : Truth) : t.or holds = holds := by cases t <;> rfl

end Truth

end Kleene
