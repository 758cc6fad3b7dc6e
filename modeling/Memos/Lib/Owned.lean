/-
Records that own an object each.

Beside a table of records there is a store of objects, and a record finds its object by a
location.  The objects are in order when each record finds what was saved for it and no
two records find the same one.

A location is free when no record is there.  Objects at free locations may come and go,
a record may go, and one may come to a free location where its object has been put.
-/
import Mathlib.Data.List.Pairwise

namespace Owned

variable {ρ κ β : Type*} {location : ρ → Option κ} {saved : ρ → β}
variable {rows rows' : List ρ} {objects objects' : κ → Option β}

structure Held (location : ρ → Option κ) (saved : ρ → β) (rows : List ρ)
    (objects : κ → Option β) : Prop where
  kept : ∀ r ∈ rows, ∀ k, location r = some k → objects k = some (saved r)
  apart : rows.Pairwise fun r r' => ∀ k, location r = some k → location r' ≠ some k

def Free (location : ρ → Option κ) (rows : List ρ) (k : κ) : Prop :=
  ∀ r ∈ rows, location r ≠ some k

/-- The objects differ at free locations only. -/
def Spares (location : ρ → Option κ) (rows : List ρ) (objects objects' : κ → Option β) : Prop :=
  ∀ r ∈ rows, ∀ k, location r = some k → objects' k = objects k

theorem Spares.refl : Spares location rows objects objects := fun _ _ _ _ => rfl

theorem Spares.trans {objects'' : κ → Option β} (first : Spares location rows objects objects')
    (second : Spares location rows objects' objects'') :
    Spares location rows objects objects'' := fun r hr k hk =>
  (second r hr k hk).trans (first r hr k hk)

theorem Free.spares [DecidableEq κ] {k : κ} (free : Free location rows k) (value : Option β) :
    Spares location rows objects (Function.update objects k value) := by
  intro r hr k' hk'
  have other : k' ≠ k := by
    rintro rfl
    exact free r hr hk'
  rw [Function.update_of_ne other]

namespace Held

theorem nil : Held location saved [] objects := ⟨by simp, .nil⟩

theorem spared (held : Held location saved rows objects)
    (spares : Spares location rows objects objects') : Held location saved rows objects' where
  kept r hr k hk := (spares r hr k hk).trans (held.kept r hr k hk)
  apart := held.apart

theorem sublist (held : Held location saved rows objects) (sub : rows'.Sublist rows) :
    Held location saved rows' objects where
  kept r hr := held.kept r (sub.subset hr)
  apart := held.apart.sublist sub

theorem snoc (held : Held location saved rows objects) {r : ρ}
    (free : ∀ k, location r = some k → Free location rows k)
    (put : ∀ k, location r = some k → objects k = some (saved r)) :
    Held location saved (rows ++ [r]) objects where
  kept r' hr' := by
    rcases List.mem_append.mp hr' with old | new
    · exact held.kept r' old
    · rw [List.mem_singleton.mp new]
      exact put
  apart := by
    rw [List.pairwise_append]
    refine ⟨held.apart, List.pairwise_singleton _ _, ?_⟩
    intro r' hr' new hnew k hk
    rw [List.mem_singleton.mp hnew]
    exact fun hk' => free k hk' r' hr' hk

/-- A record may change in what neither places nor describes its object. -/
theorem map (held : Held location saved rows objects) {f : ρ → ρ}
    (placed : ∀ r, location (f r) = location r) (described : ∀ r, saved (f r) = saved r) :
    Held location saved (rows.map f) objects where
  kept r hr := by
    obtain ⟨old, hold, rfl⟩ := List.mem_map.mp hr
    rw [placed, described]
    exact held.kept old hold
  apart := by
    rw [List.pairwise_map]
    simp only [placed]
    exact held.apart

theorem ne_location (held : Held location saved rows objects) {r r' : ρ} (hr : r ∈ rows)
    (hr' : r' ∈ rows) (ne : r ≠ r') {k : κ} (hk : location r = some k) :
    location r' ≠ some k := by
  have : Std.Symm fun r r' : ρ => ∀ k, location r = some k → location r' ≠ some k :=
    ⟨fun r r' h k hk' hk => h k hk hk'⟩
  exact held.apart.forall hr hr' ne k hk

/-- Where a record was that is kept no longer, the location is free. -/
theorem free_of_dropped (held : Held location saved rows objects) {stays : ρ → Bool} {r : ρ}
    (hr : r ∈ rows) (gone : stays r = false) {k : κ} (hk : location r = some k) :
    Free location (rows.filter stays) k := by
  intro r' hr' hk'
  obtain ⟨old, stay⟩ := List.mem_filter.mp hr'
  have ne : r ≠ r' := by
    rintro rfl
    exact Bool.false_ne_true (gone.symm.trans stay)
  exact held.ne_location hr old ne hk hk'

end Held

end Owned
