/-
Folds that do not depend on the order of a list.

When the steps of a fold commute, the fold is the same for every order of its list.
When a step that is made twice is as good as made once, it does not matter either how
often an element is listed.  Both are needed for single elements only: a step may fail to
commute with one that the list does not hold, and elements whose steps add up can be
counted.
-/
import Mathlib.Data.List.Dedup
import Mathlib.Data.List.Perm.Basic

namespace Folds

variable {α β : Type*} {f : β → α → β} {l l' : List α}

def Commuting (f : β → α → β) (l : List α) : Prop :=
  ∀ a ∈ l, ∀ b ∈ l, ∀ z, f (f z a) b = f (f z b) a

def Idempotent (f : β → α → β) (l : List α) : Prop :=
  ∀ a ∈ l, ∀ z, f (f z a) a = f z a

theorem Commuting.mono (h : Commuting f l) (sub : ∀ a ∈ l', a ∈ l) : Commuting f l' :=
  fun a ha b hb => h a (sub a ha) b (sub b hb)

theorem Commuting.foldl_eq_of_perm (h : Commuting f l) (perm : l.Perm l') (z : β) :
    l.foldl f z = l'.foldl f z :=
  perm.foldl_eq' (fun a ha b hb => h a ha b hb) z

variable [DecidableEq α]

/-- A first step for an element that is listed anyway is lost. -/
theorem foldl_absorb (commuting : Commuting f l) (idempotent : Idempotent f l) {a : α}
    (listed : a ∈ l) (z : β) : l.foldl f (f z a) = l.foldl f z := by
  have perm := List.perm_cons_erase listed
  rw [commuting.foldl_eq_of_perm perm, commuting.foldl_eq_of_perm perm, List.foldl_cons,
    List.foldl_cons, idempotent a listed]

theorem foldl_dedup (commuting : Commuting f l) (idempotent : Idempotent f l) (z : β) :
    l.dedup.foldl f z = l.foldl f z := by
  induction l generalizing z with
  | nil => rfl
  | cons a l ih =>
      have commuting' : Commuting f l := commuting.mono fun _ => List.mem_cons_of_mem a
      have idempotent' : Idempotent f l := fun b hb => idempotent b (List.mem_cons_of_mem a hb)
      by_cases listed : a ∈ l
      · rw [List.dedup_cons_of_mem listed, ih commuting' idempotent', List.foldl_cons,
          foldl_absorb commuting' idempotent' listed]
      · rw [List.dedup_cons_of_notMem listed, List.foldl_cons, List.foldl_cons,
          ih commuting' idempotent']

theorem foldl_eq_of_mem_iff (commuting : Commuting f l) (idempotent : Idempotent f l)
    (same : ∀ a, a ∈ l ↔ a ∈ l') (z : β) : l.foldl f z = l'.foldl f z := by
  have commuting' : Commuting f l' := commuting.mono fun a ha => (same a).mpr ha
  have idempotent' : Idempotent f l' := fun a ha => idempotent a ((same a).mpr ha)
  have perm : l.dedup.Perm l'.dedup := by
    refine (List.perm_ext_iff_of_nodup l.nodup_dedup l'.nodup_dedup).mpr fun a => ?_
    rw [List.mem_dedup, List.mem_dedup]
    exact same a
  have commuting_dedup : Commuting f l.dedup := commuting.mono fun a ha => List.mem_dedup.mp ha
  rw [← foldl_dedup commuting idempotent, commuting_dedup.foldl_eq_of_perm perm,
    foldl_dedup commuting' idempotent']

/-- Lists with the same elements, one of which is listed equally often in both. -/
theorem foldl_eq_of_count_eq (counted : α) (commuting : Commuting f l)
    (idempotent : Idempotent f (l.filter (· ≠ counted))) (same : ∀ a, a ∈ l ↔ a ∈ l')
    (count : l.count counted = l'.count counted) (z : β) : l.foldl f z = l'.foldl f z := by
  have commuting' : Commuting f l' := commuting.mono fun a ha => (same a).mpr ha
  -- the counted elements are moved to the front
  have split : ∀ l : List α,
      l.Perm (List.replicate (l.count counted) counted ++ l.filter (· ≠ counted)) := by
    intro l
    have perm := (List.filter_append_perm (fun a => decide (a = counted)) l).symm
    rw [List.filter_eq] at perm
    refine perm.trans (List.Perm.append_left _ ?_)
    exact List.Perm.of_eq (List.filter_congr fun a _ => by simp)
  rw [commuting.foldl_eq_of_perm (split l), commuting'.foldl_eq_of_perm (split l'),
    List.foldl_append, List.foldl_append, count]
  refine foldl_eq_of_mem_iff (commuting.mono fun a ha => (List.mem_filter.mp ha).1) idempotent
    (fun a => ?_) _
  rw [List.mem_filter, List.mem_filter, same a]

end Folds
