/-
Multiples of a step.

A grid is what a step divides.  After any number there is a first point of the grid, and
the first one after a point is one step on.
-/
import Mathlib.Order.Bounds.Basic
import Mathlib.Algebra.Order.Group.Int

namespace Grid

variable {u n m : Int}

/-- The first point after a number. -/
def after (u n : Int) : Int := n + u - n % u

theorem dvd_after (u n : Int) : u ∣ after u n := by
  have split : after u n = u * (n / u) + u := by
    have := Int.mul_ediv_add_emod n u
    unfold after
    omega
  rw [split]
  exact Int.dvd_add (Int.dvd_mul_right u _) (Int.dvd_refl u)

theorem lt_after (pos : 0 < u) (n : Int) : n < after u n := by
  have := Int.emod_lt_of_pos n pos
  unfold after
  omega

theorem after_le_add (pos : 0 < u) (n : Int) : after u n ≤ n + u := by
  have := Int.emod_nonneg n pos.ne'
  unfold after
  omega

/-- Between a number and the point after it there is no other. -/
theorem after_le (pos : 0 < u) (later : n < m) (point : u ∣ m) : after u n ≤ m := by
  obtain ⟨k, rfl⟩ := point
  have split := Int.mul_ediv_add_emod n u
  have low := Int.emod_nonneg n pos.ne'
  have less : n / u < k := by
    by_contra not_less
    have := Int.mul_le_mul_of_nonneg_left (not_lt.mp not_less) pos.le
    omega
  have := Int.mul_le_mul_of_nonneg_left (Int.add_one_le_of_lt less) pos.le
  rw [Int.mul_add, Int.mul_one] at this
  unfold after
  omega

theorem isLeast_after (pos : 0 < u) (n : Int) : IsLeast {m | n < m ∧ u ∣ m} (after u n) :=
  ⟨⟨lt_after pos n, dvd_after u n⟩, fun _ h => after_le pos h.1 h.2⟩

theorem after_of_dvd (point : u ∣ n) : after u n = n + u := by
  have := Int.emod_eq_zero_of_dvd point
  unfold after
  omega

/-- A point that is not before another one is that one, or a step later at least. -/
theorem eq_or_add_le (pos : 0 < u) (point : u ∣ n) (other : u ∣ m) (h : n ≤ m) :
    m = n ∨ n + u ≤ m := by
  rcases h.eq_or_lt with rfl | less
  · exact .inl rfl
  · right
    rw [← after_of_dvd point]
    exact after_le pos less other

end Grid
