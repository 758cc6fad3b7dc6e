/-
Words in a list.

A word stands at an offset when it is a prefix of what is left from there.  The search
from the front finds the least such offset and the search from the back the greatest, and
each finds none only when there is none.  Replacing a word goes from the front, and goes on
after what it put in.
-/
import Mathlib.Data.List.Basic

namespace Find

variable {α : Type*} {word l : List α} {i j : Nat}

def StandsAt (word l : List α) (i : Nat) : Prop := word <+: l.drop i

instance [DecidableEq α] (word l : List α) (i : Nat) : Decidable (StandsAt word l i) :=
  inferInstanceAs (Decidable (word <+: l.drop i))

section Standing

theorem StandsAt.getElem? (stands : StandsAt word l i) (inside : j < word.length) :
    l[i + j]? = word[j]? := by
  obtain ⟨rest, same⟩ := stands
  rw [← List.getElem?_drop, ← same, List.getElem?_append_left inside]

theorem StandsAt.length_le (stands : StandsAt word l i) (some : word ≠ []) :
    i + word.length ≤ l.length := by
  have le := List.IsPrefix.length_le stands
  have pos := List.length_pos_of_ne_nil some
  rw [List.length_drop] at le
  omega

/-- The word stands in a beginning of the list when it ends there. -/
theorem standsAt_take {n : Nat} (some : word ≠ []) :
    StandsAt word (l.take n) i ↔ StandsAt word l i ∧ i + word.length ≤ n := by
  unfold StandsAt
  rw [List.drop_take, List.prefix_take_iff]
  have pos := List.length_pos_of_ne_nil some
  constructor
  · intro ⟨stands, le⟩
    exact ⟨stands, by omega⟩
  · intro ⟨stands, le⟩
    exact ⟨stands, by omega⟩

theorem standsAt_singleton {a : α} : StandsAt [a] l i ↔ l[i]? = some a := by
  unfold StandsAt
  rw [← List.head?_drop]
  cases l.drop i with
  | nil => simp
  | cons b rest => simp [eq_comm]

end Standing

variable [DecidableEq α]

def index (word : List α) : List α → Option Nat
  | [] => if word = [] then some 0 else none
  | a :: l => if word <+: a :: l then some 0 else (index word l).map (· + 1)

def lastIndex (word : List α) : List α → Option Nat
  | [] => if word = [] then some 0 else none
  | a :: l =>
    match lastIndex word l with
    | some i => some (i + 1)
    | none => if word <+: a :: l then some 0 else none

theorem index_eq_none (h : index word l = none) (i : Nat) : ¬StandsAt word l i := by
  induction l generalizing i with
  | nil =>
      rw [index] at h
      split_ifs at h with empty
      intro stands
      rw [StandsAt, List.drop_nil] at stands
      exact empty (List.prefix_nil.mp stands)
  | cons a l ih =>
      rw [index] at h
      split_ifs at h with here
      cases i with
      | zero => exact here
      | succ i => exact ih (Option.map_eq_none_iff.mp h) i

theorem index_standsAt (h : index word l = some i) : StandsAt word l i := by
  induction l generalizing i with
  | nil =>
      rw [index] at h
      split_ifs at h with empty
      rw [empty]
      exact List.nil_prefix
  | cons a l ih =>
      rw [index] at h
      split_ifs at h with here
      · injection h with h
        subst h
        exact here
      · obtain ⟨i', found, rfl⟩ := Option.map_eq_some_iff.mp h
        exact ih found

theorem index_le (h : index word l = some i) (stands : StandsAt word l j) : i ≤ j := by
  induction l generalizing i j with
  | nil =>
      rw [index] at h
      split_ifs at h with empty
      injection h with h
      omega
  | cons a l ih =>
      rw [index] at h
      split_ifs at h with here
      · injection h with h
        omega
      · obtain ⟨i', found, rfl⟩ := Option.map_eq_some_iff.mp h
        cases j with
        | zero => exact absurd stands here
        | succ j => exact Nat.succ_le_succ (ih found stands)

theorem lastIndex_eq_none (h : lastIndex word l = none) (i : Nat) : ¬StandsAt word l i := by
  induction l generalizing i with
  | nil =>
      rw [lastIndex] at h
      split_ifs at h with empty
      intro stands
      rw [StandsAt, List.drop_nil] at stands
      exact empty (List.prefix_nil.mp stands)
  | cons a l ih =>
      rw [lastIndex] at h
      split at h
      · cases h
      next none =>
        split_ifs at h with here
        cases i with
        | zero => exact here
        | succ i => exact ih none i

theorem lastIndex_standsAt (h : lastIndex word l = some i) : StandsAt word l i := by
  induction l generalizing i with
  | nil =>
      rw [lastIndex] at h
      split_ifs at h with empty
      rw [empty]
      exact List.nil_prefix
  | cons a l ih =>
      rw [lastIndex] at h
      split at h
      next i' found =>
        injection h with h
        subst h
        exact ih found
      · split_ifs at h with here
        injection h with h
        subst h
        exact here

theorem le_lastIndex (nonempty : word ≠ []) (h : lastIndex word l = some i)
    (stands : StandsAt word l j) : j ≤ i := by
  induction l generalizing i j with
  | nil =>
      rw [StandsAt, List.drop_nil] at stands
      exact absurd (List.prefix_nil.mp stands) nonempty
  | cons a l ih =>
      rw [lastIndex] at h
      split at h
      next i' found =>
        injection h with h
        subst h
        cases j with
        | zero => exact Nat.zero_le _
        | succ j => exact Nat.succ_le_succ (ih found stands)
      next none =>
        cases j with
        | zero => exact Nat.zero_le _
        | succ j => exact absurd stands (lastIndex_eq_none none j)

theorem index_eq_some_iff : index word l = some i ↔
    StandsAt word l i ∧ ∀ j, StandsAt word l j → i ≤ j := by
  refine ⟨fun found => ⟨index_standsAt found, fun j => index_le found⟩, fun ⟨stands, first⟩ => ?_⟩
  cases found : index word l with
  | none => exact absurd stands (index_eq_none found i)
  | some j => rw [Nat.le_antisymm (index_le found stands) (first j (index_standsAt found))]

theorem index_eq_none_iff : index word l = none ↔ ∀ i, ¬StandsAt word l i := by
  refine ⟨index_eq_none, fun none => ?_⟩
  cases found : index word l with
  | none => rfl
  | some j => exact absurd (index_standsAt found) (none j)

/-! ### One letter -/

theorem index_singleton_append {a : α} {rest : List α} (free : a ∉ l) :
    index [a] (l ++ a :: rest) = some l.length := by
  refine index_eq_some_iff.mpr ⟨?_, fun j stands => ?_⟩
  · rw [standsAt_singleton, List.getElem?_append_right (Nat.le_refl _), Nat.sub_self]
    rfl
  · rw [standsAt_singleton] at stands
    by_contra before
    rw [List.getElem?_append_left (Nat.not_le.mp before)] at stands
    exact free (List.mem_of_getElem? stands)

theorem index_singleton_of_not_mem {a : α} (free : a ∉ l) : index [a] l = none := by
  refine index_eq_none_iff.mpr fun i stands => ?_
  rw [standsAt_singleton] at stands
  exact free (List.mem_of_getElem? stands)

/-! ### Replacing -/

/-- The list after as many letters as are skipped, with the other word for each occurrence. -/
def replaceFrom (word other : List α) : Nat → List α → List α
  | _, [] => []
  | skip + 1, _ :: l => replaceFrom word other skip l
  | 0, a :: l =>
    if word <+: a :: l then other ++ replaceFrom word other (word.length - 1) l
    else a :: replaceFrom word other 0 l

def replaceAll (word other l : List α) : List α := replaceFrom word other 0 l

variable {other rest : List α}

theorem replaceFrom_skip (skipped : List α) :
    replaceFrom word other skipped.length (skipped ++ rest) = replaceAll word other rest := by
  induction skipped with
  | nil => rfl
  | cons a skipped ih => exact ih

theorem replaceAll_word (nonempty : word ≠ []) :
    replaceAll word other (word ++ rest) = other ++ replaceAll word other rest := by
  cases word with
  | nil => exact absurd rfl nonempty
  | cons a word =>
      have here : a :: word <+: a :: (word ++ rest) := List.prefix_append (a :: word) rest
      rw [replaceAll, List.cons_append, replaceFrom, if_pos here, List.length_cons,
        Nat.add_sub_cancel, replaceFrom_skip]

theorem replaceAll_cons {a : α} (not_here : ¬word <+: a :: rest) :
    replaceAll word other (a :: rest) = a :: replaceAll word other rest := if_neg not_here

/-- What has no first letter of the word in it is left as it is. -/
theorem replaceAll_append_of_not_mem {a : α} (free : a ∉ l) :
    replaceAll (a :: word) other (l ++ rest) = l ++ replaceAll (a :: word) other rest := by
  induction l with
  | nil => rfl
  | cons b l ih =>
      rw [List.mem_cons, not_or] at free
      rw [List.cons_append, replaceAll_cons fun pre => free.1 (List.cons_prefix_cons.mp pre).1,
        ih free.2]
      rfl

end Find
