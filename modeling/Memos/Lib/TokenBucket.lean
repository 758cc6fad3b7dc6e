/-
Token buckets.

A bucket holds a level, which rises with time at a rate and up to a capacity.  A request takes
its cost out of the bucket or is refused.

What is taken out in a window of time is at most the capacity and what comes in during the
window, for any system whose level rises no faster and covers what is taken out.  The times
need not be in order for this.
-/
import Mathlib.Algebra.BigOperators.Group.List.Lemmas
import Mathlib.Algebra.Order.BigOperators.Group.List
import Mathlib.Tactic.Linarith
import Mathlib.Tactic.Ring

namespace TokenBucket

structure Bucket (K : Type*) where
  level : K
  time : K

/-- What a request took, at a time: nothing if it was refused. -/
structure Spending (K : Type*) where
  time : K
  cost : K

variable {K : Type*} [CommRing K] [LinearOrder K]

/-- What is taken out from one time to another. -/
def spent (start stop : K) (spendings : List (Spending K)) : K :=
  ((spendings.filter fun s => start ≤ s.time ∧ s.time ≤ stop).map Spending.cost).sum

section Spent

variable {start stop : K} {s : Spending K} {spendings : List (Spending K)}

@[simp] theorem spent_nil : spent start stop ([] : List (Spending K)) = 0 := rfl

theorem spent_cons_of_inside (inside : start ≤ s.time ∧ s.time ≤ stop) :
    spent start stop (s :: spendings) = s.cost + spent start stop spendings := by
  unfold spent
  rw [List.filter_cons_of_pos (by simpa using inside), List.map_cons, List.sum_cons]

theorem spent_cons_of_outside (outside : ¬ (start ≤ s.time ∧ s.time ≤ stop)) :
    spent start stop (s :: spendings) = spent start stop spendings := by
  unfold spent
  rw [List.filter_cons_of_neg (by simpa using outside)]

/-- Nothing was taken out, or not in the window. -/
theorem spent_cons_of_idle (nonneg : 0 ≤ s.cost)
    (idle : ¬ (0 < s.cost ∧ start ≤ s.time ∧ s.time ≤ stop)) :
    spent start stop (s :: spendings) = spent start stop spendings := by
  by_cases inside : start ≤ s.time ∧ s.time ≤ stop
  · have refused : s.cost = 0 := le_antisymm (not_lt.mp fun paid => idle ⟨paid, inside⟩) nonneg
    rw [spent_cons_of_inside inside, refused, zero_add]
  · exact spent_cons_of_outside inside

theorem spent_append (first second : List (Spending K)) :
    spent start stop (first ++ second) = spent start stop first + spent start stop second := by
  unfold spent
  rw [List.filter_append, List.map_append, List.sum_append]

end Spent

/-! ### What a window lets through -/

/-- A request that takes out a cost, between two buckets.  The level rises by no more than what
comes in and stays below the capacity, and it covers the cost. -/
structure Step (capacity rate : K) (b : Bucket K) (cost : K) (b' : Bucket K) : Prop where
  nonneg : 0 ≤ cost
  within : b'.level + cost ≤ capacity
  earned : b'.level + cost ≤ b.level + rate * (b'.time - b.time)
  covered : 0 < cost → 0 ≤ b'.level

/-- Requests one after the other, with what each of them takes out. -/
inductive Steps (capacity rate : K) : Bucket K → List (Spending K) → Bucket K → Prop
  | nil (b : Bucket K) : Steps capacity rate b [] b
  | cons {b b' e : Bucket K} {cost : K} {rest : List (Spending K)}
      (step : Step capacity rate b cost b') (later : Steps capacity rate b' rest e) :
      Steps capacity rate b (⟨b'.time, cost⟩ :: rest) e

section Steps

variable {capacity rate cost start stop : K} {b b' e : Bucket K} {spendings : List (Spending K)}

theorem Steps.concat (steps : Steps capacity rate b spendings b')
    (step : Step capacity rate b' cost e) :
    Steps capacity rate b (spendings ++ [⟨e.time, cost⟩]) e := by
  induction steps with
  | nil b => exact .cons step (.nil e)
  | cons first _ ih => exact .cons first (ih step)

variable [IsStrictOrderedRing K]

/-- Up to a time, no more is taken out than is there or comes in until then. -/
theorem Steps.spent_le_level (steps : Steps capacity rate b spendings e) (rising : 0 ≤ rate) :
    spent start stop spendings ≤ max 0 (b.level + rate * (stop - b.time)) := by
  induction steps with
  | nil b => exact le_max_left ..
  | @cons b b' e cost rest step later ih =>
      by_cases inside : 0 < cost ∧ start ≤ b'.time ∧ b'.time ≤ stop
      · obtain ⟨paid, after, before⟩ := inside
        have left := step.covered paid
        have more : 0 ≤ rate * (stop - b'.time) := mul_nonneg rising (sub_nonneg.mpr before)
        rw [max_eq_right (add_nonneg left more)] at ih
        rw [spent_cons_of_inside ⟨after, before⟩]
        refine le_max_of_le_right ?_
        calc cost + spent start stop rest
            ≤ cost + (b'.level + rate * (stop - b'.time)) := by gcongr
          _ = (b'.level + cost) + rate * (stop - b'.time) := by ring
          _ ≤ (b.level + rate * (b'.time - b.time)) + rate * (stop - b'.time) := by
              gcongr ?_ + _
              exact step.earned
          _ = b.level + rate * (stop - b.time) := by ring
      · have less : b'.level + rate * (stop - b'.time) ≤ b.level + rate * (stop - b.time) := by
          have earned := step.earned
          have nonneg := step.nonneg
          have split : rate * (stop - b.time) = rate * (b'.time - b.time) + rate * (stop - b'.time) := by
            ring
          linarith
        rw [spent_cons_of_idle (s := ⟨b'.time, cost⟩) step.nonneg inside]
        exact ih.trans (max_le_max_left 0 less)

/-- **In a window no more is taken out than fits into the bucket and what comes in.** -/
theorem Steps.spent_le (steps : Steps capacity rate b spendings e) (rising : 0 ≤ rate)
    (room : 0 ≤ capacity) (window : start ≤ stop) :
    spent start stop spendings ≤ capacity + rate * (stop - start) := by
  induction steps with
  | nil b => exact add_nonneg room (mul_nonneg rising (sub_nonneg.mpr window))
  | @cons b b' e cost rest step later ih =>
      by_cases inside : 0 < cost ∧ start ≤ b'.time ∧ b'.time ≤ stop
      · obtain ⟨paid, after, before⟩ := inside
        have left := step.covered paid
        have more : 0 ≤ rate * (stop - b'.time) := mul_nonneg rising (sub_nonneg.mpr before)
        have rest_le : spent start stop rest ≤ b'.level + rate * (stop - b'.time) := by
          rw [← max_eq_right (add_nonneg left more)]
          exact later.spent_le_level rising
        rw [spent_cons_of_inside ⟨after, before⟩]
        calc cost + spent start stop rest
            ≤ cost + (b'.level + rate * (stop - b'.time)) := by gcongr
          _ = (b'.level + cost) + rate * (stop - b'.time) := by ring
          _ ≤ capacity + rate * (stop - start) := by
              gcongr
              exact step.within
      · rw [spent_cons_of_idle (s := ⟨b'.time, cost⟩) step.nonneg inside]
        exact ih

end Steps

/-! ### The bucket -/

/-- What has come in is added, as far as it fits. -/
def Bucket.refill (capacity income : K) (b : Bucket K) (now : K) : Bucket K where
  level := min capacity (b.level + income)
  time := now

def Bucket.spend (b : Bucket K) (cost : K) : Bucket K := { b with level := b.level - cost }

/-- A request for a cost, at a time. -/
def Bucket.request (capacity income cost : K) (b : Bucket K) (now : K) : Bool × Bucket K :=
  let b := b.refill capacity income now
  if cost ≤ b.level then (true, b.spend cost) else (false, b)

section Request

variable {capacity rate income cost now : K} {b : Bucket K}

theorem request_of_enough (enough : cost ≤ (b.refill capacity income now).level) :
    b.request capacity income cost now = (true, (b.refill capacity income now).spend cost) := by
  unfold Bucket.request
  exact if_pos enough

theorem request_of_short (short : ¬ cost ≤ (b.refill capacity income now).level) :
    b.request capacity income cost now = (false, b.refill capacity income now) := by
  unfold Bucket.request
  exact if_neg short

/-- A bucket that gets no more than comes in covers what it grants. -/
theorem step_request [IsStrictOrderedRing K] (nonneg : 0 ≤ cost)
    (earned : income ≤ rate * (now - b.time)) :
    Step capacity rate b (if (b.request capacity income cost now).1 then cost else 0)
      (b.request capacity income cost now).2 := by
  have filled : (b.refill capacity income now).level ≤ b.level + rate * (now - b.time) := by
    refine (min_le_right ..).trans ?_
    gcongr
  by_cases enough : cost ≤ (b.refill capacity income now).level
  · rw [request_of_enough enough, if_pos rfl]
    refine ⟨nonneg, ?_, ?_, fun _ => sub_nonneg.mpr enough⟩
    · show (b.refill capacity income now).level - cost + cost ≤ capacity
      rw [sub_add_cancel]
      exact min_le_left ..
    · show (b.refill capacity income now).level - cost + cost ≤ b.level + rate * (now - b.time)
      rw [sub_add_cancel]
      exact filled
  · rw [request_of_short enough, if_neg Bool.false_ne_true]
    refine ⟨le_rfl, ?_, ?_, fun impossible => absurd impossible (lt_irrefl 0)⟩
    · rw [add_zero]
      exact min_le_left ..
    · rw [add_zero]
      exact filled

end Request

end TokenBucket
