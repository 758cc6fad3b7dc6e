/-
Families of sets that must not become empty.

An index is live or not, and each index has a set of holders.  The rule is that every
live index has a holder.  A step may keep what there is (holders may join, indices may
die), may bring an index to life with a first holder, or may take one holder away from
some indices; the last is allowed only where another holder is left behind.

Steps are stated as lower bounds on what remains, so that an implementation refines them
whatever else it changes.
-/
import Mathlib.Data.Set.Insert

namespace Guarded

structure Family (ι α : Type*) where
  live : Set ι
  holders : ι → Set α

variable {ι α : Type*}

def Family.Inhabited (F : Family ι α) : Prop := ∀ i ∈ F.live, (F.holders i).Nonempty

inductive Step (F G : Family ι α) : Prop
  /-- No index comes to life and no holder of a live one leaves. -/
  | keep (kept : ∀ i ∈ G.live, i ∈ F.live ∧ F.holders i ⊆ G.holders i)
  /-- The index `i` comes to life with the holder `a`. -/
  | create (i : ι) (a : α) (first : a ∈ G.holders i)
      (kept : ∀ j ∈ G.live, j ≠ i → j ∈ F.live ∧ F.holders j ⊆ G.holders j)
  /-- The holder `a` leaves the indices in `scope`, each of which has another. -/
  | remove (a : α) (scope : Set ι)
      (guard : ∀ i ∈ F.live, i ∈ scope → ∃ b ∈ F.holders i, b ≠ a)
      (kept : ∀ i ∈ G.live, i ∈ F.live ∧ ∀ b ∈ F.holders i, b ≠ a ∨ i ∉ scope → b ∈ G.holders i)

/-- The guard of a removal is exactly what the rule needs. -/
theorem Step.inhabited {F G : Family ι α} (step : Step F G) (h : F.Inhabited) : G.Inhabited := by
  intro i hi
  cases step with
  | keep kept =>
      obtain ⟨live, sub⟩ := kept i hi
      exact (h i live).mono sub
  | create j a first kept =>
      by_cases same : i = j
      · rw [same]
        exact ⟨a, first⟩
      · obtain ⟨live, sub⟩ := kept i hi same
        exact (h i live).mono sub
  | remove a scope guard kept =>
      obtain ⟨live, stay⟩ := kept i hi
      by_cases inside : i ∈ scope
      · obtain ⟨b, hb, hne⟩ := guard i live inside
        exact ⟨b, stay b hb (.inl hne)⟩
      · obtain ⟨b, hb⟩ := h i live
        exact ⟨b, stay b hb (.inr inside)⟩

theorem inhabited_of_run {F G : Family ι α} (run : Relation.ReflTransGen Step F G)
    (h : F.Inhabited) : G.Inhabited := by
  induction run with
  | refl => exact h
  | tail _ step ih => exact step.inhabited ih

/-! ### Two removals, one after the other

Each removal takes at most one holder away and each has a guard, but the guard of the
second may have been evaluated before the first.  There is then one way to an empty set.
-/

/-- Sets `A`, `B` and `C` before, between and after two removals. -/
theorem eq_pair_of_two_removals {α : Type*} {A B C : Set α} {r r' : Option α}
    (held : A.Nonempty) (kept : ∀ a ∈ A, r ≠ some a → a ∈ B) (kept' : ∀ b ∈ B, r' ≠ some b → b ∈ C)
    (closed : ∀ a, r = some a → B ⊆ A)
    (guard : ∀ a, r = some a → a ∈ A → ∃ b ∈ A, b ≠ a)
    (guard' : ∀ b, r' = some b → b ∈ A → b ∈ B → ∃ a, (a ∈ A ∨ a ∈ B) ∧ a ≠ b)
    (gone : ¬ C.Nonempty) :
    ∃ a b, r = some a ∧ r' = some b ∧ a ≠ b ∧ A = {a, b} := by
  -- The second removal takes the only holder there was in between.
  have last : ∀ b ∈ B, r' = some b := by
    intro b hb
    by_contra other
    exact gone ⟨b, kept' b hb other⟩
  obtain ⟨b, hb⟩ : B.Nonempty := by
    obtain ⟨a, ha⟩ := held
    by_cases taken : r = some a
    · obtain ⟨b, hb, hne⟩ := guard a taken ha
      refine ⟨b, kept b hb fun same => hne ?_⟩
      exact Option.some.inj (same.symm.trans taken)
    · exact ⟨a, kept a ha taken⟩
  have only : ∀ c ∈ B, c = b := fun c hc => Option.some.inj ((last c hc).symm.trans (last b hb))
  -- That holder was one from the start: a removal lets nobody join.
  have before : b ∈ A := by
    cases hr : r with
    | some a => exact closed a hr hb
    | none =>
        obtain ⟨a, ha⟩ := held
        have same := only a (kept a ha (by simp [hr]))
        exact same ▸ ha
  obtain ⟨a, ha, hne⟩ := guard' b (last b hb) before hb
  have ha : a ∈ A := ha.resolve_right fun inB => hne (only a inB)
  have taken : ∀ c ∈ A, c ≠ b → r = some c := by
    intro c hc other
    by_contra stays
    exact other (only c (kept c hc stays))
  refine ⟨a, b, taken a ha hne, last b hb, hne, ?_⟩
  ext c
  rw [Set.mem_insert_iff, Set.mem_singleton_iff]
  constructor
  · intro hc
    by_cases same : c = b
    · exact .inr same
    · exact .inl (Option.some.inj ((taken c hc same).symm.trans (taken a ha hne)))
  · rintro (rfl | rfl)
    · exact ha
    · exact before

end Guarded
