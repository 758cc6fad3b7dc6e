/-
The first candidate that is not taken.

Candidates are tried in their order.  When they are all different, it is enough to try one
more than are taken.
-/
import Mathlib.Data.List.Nodup
import Mathlib.Data.List.Perm.Subperm

namespace FirstFree

variable {α : Type*} [DecidableEq α] (candidate : Nat → α) (taken : List α)

def firstFree : Nat → Nat → Option α
  | 0, _ => none
  | fuel + 1, i => if candidate i ∈ taken then firstFree fuel (i + 1) else some (candidate i)

variable {candidate taken} {fuel i : Nat} {a : α}

theorem not_mem_of_firstFree (found : firstFree candidate taken fuel i = some a) :
    a ∉ taken ∧ ∃ n, candidate n = a := by
  induction fuel generalizing i with
  | zero => cases found
  | succ fuel ih =>
      unfold firstFree at found
      by_cases mem : candidate i ∈ taken
      · rw [if_pos mem] at found
        exact ih found
      · rw [if_neg mem] at found
        cases found
        exact ⟨mem, i, rfl⟩

theorem taken_of_none (none : firstFree candidate taken fuel i = none) :
    ∀ j < fuel, candidate (i + j) ∈ taken := by
  induction fuel generalizing i with
  | zero => exact fun j lt => absurd lt j.not_lt_zero
  | succ fuel ih =>
      unfold firstFree at none
      by_cases mem : candidate i ∈ taken
      · rw [if_pos mem] at none
        rintro (_ | j) lt
        · exact mem
        · rw [← Nat.succ_add_eq_add_succ]
          exact ih none j (Nat.lt_of_succ_lt_succ lt)
      · rw [if_neg mem] at none
        cases none

theorem exists_firstFree (taken : List α) (apart : Function.Injective candidate) :
    ∃ n, firstFree candidate taken (taken.length + 1) 0 = some (candidate n) ∧
      candidate n ∉ taken := by
  cases found : firstFree candidate taken (taken.length + 1) 0 with
  | some a =>
      obtain ⟨free, n, rfl⟩ := not_mem_of_firstFree found
      exact ⟨n, rfl, free⟩
  | none =>
      have mem := taken_of_none found
      have nodup : ((List.range (taken.length + 1)).map candidate).Nodup := List.nodup_range.map apart
      have sub : (List.range (taken.length + 1)).map candidate ⊆ taken := fun a here => by
        obtain ⟨j, lt, rfl⟩ := List.mem_map.mp here
        rw [← Nat.zero_add j]
        exact mem j (List.mem_range.mp lt)
      have le := (List.subperm_of_subset nodup sub).length_le
      rw [List.length_map, List.length_range] at le
      exact absurd le (Nat.not_succ_le_self _)

end FirstFree
