/-
Names in a hierarchy.

A name is a list, and a sign divides it.  What stands before one of the signs is an
ancestor of the name.  The names of a set with all their ancestors are the least set that
holds them and is closed under ancestors.
-/
import Mathlib.Data.List.Infix
import Mathlib.Order.Closure
import Mathlib.Order.CompletePartialOrder

namespace Hierarchy

variable {α : Type*} (slash : α)

/-- `a` stands before a sign of `v`. -/
def IsAncestor (a v : List α) : Prop := a ++ [slash] <+: v

instance [DecidableEq α] (a v : List α) : Decidable (IsAncestor slash a v) :=
  inferInstanceAs (Decidable (_ <+: _))

variable {slash}

theorem IsAncestor.trans {a b v : List α} (h : IsAncestor slash a b) (h' : IsAncestor slash b v) :
    IsAncestor slash a v :=
  List.IsPrefix.trans h ((List.prefix_append b [slash]).trans h')

/-- An ancestor stands before the first sign, or before a later one. -/
theorem isAncestor_append_cons {a before after : List α} (free : slash ∉ before) :
    IsAncestor slash a (before ++ slash :: after) ↔
      a = before ∨ ∃ a', a = before ++ slash :: a' ∧ IsAncestor slash a' after := by
  constructor
  · rintro ⟨rest, split⟩
    rw [List.append_assoc, List.singleton_append, List.append_eq_append_iff] at split
    rcases split with ⟨more, rfl, front⟩ | ⟨more, rfl, back⟩
    · cases more with
      | nil => exact .inl (List.append_nil a).symm
      | cons c more =>
          rw [List.cons_append, List.cons.injEq] at front
          exact absurd (List.mem_append_right a (front.1 ▸ List.mem_cons_self)) free
    · cases more with
      | nil => exact .inl (List.append_nil before)
      | cons c more =>
          rw [List.cons_append, List.cons.injEq] at back
          obtain ⟨rfl, rfl⟩ := back
          exact .inr ⟨more, rfl, rest, by rw [List.append_assoc, List.singleton_append]⟩
  · rintro (rfl | ⟨a', rfl, rest, split⟩)
    · exact ⟨after, by rw [List.append_assoc, List.singleton_append]⟩
    · refine ⟨rest, ?_⟩
      rw [← split]
      simp only [List.append_assoc, List.cons_append, List.nil_append]

theorem not_isAncestor_of_free {a v : List α} (free : slash ∉ v) : ¬IsAncestor slash a v :=
  fun h => free (h.subset (List.mem_append_right a List.mem_cons_self))

variable (slash)

/-- Names with all their ancestors. -/
def closure : ClosureOperator (Set (List α)) :=
  ClosureOperator.mk' (fun names => {v | ∃ name ∈ names, v = name ∨ IsAncestor slash v name})
    (fun _ _ sub _ ⟨name, mem, is⟩ => ⟨name, sub mem, is⟩)
    (fun _ name mem => ⟨name, mem, .inl rfl⟩)
    (by
      rintro names a ⟨v, ⟨name, mem, is⟩, under⟩
      refine ⟨name, mem, ?_⟩
      rcases under with rfl | under
      · exact is
      · rcases is with rfl | is
        · exact .inr under
        · exact .inr (under.trans is))

variable {slash}

theorem mem_closure {names : Set (List α)} {v : List α} :
    v ∈ closure slash names ↔ ∃ name ∈ names, v = name ∨ IsAncestor slash v name :=
  Iff.rfl

/-- The closed sets are those that hold the ancestors of what they hold. -/
theorem isClosed_iff {names : Set (List α)} :
    (closure slash).IsClosed names ↔ ∀ v ∈ names, ∀ a, IsAncestor slash a v → a ∈ names := by
  rw [(closure slash).isClosed_iff_closure_le]
  constructor
  · intro closed v mem a under
    exact closed ⟨v, mem, .inr under⟩
  · rintro closed a ⟨v, mem, rfl | under⟩
    · exact mem
    · exact closed v mem a under

end Hierarchy
