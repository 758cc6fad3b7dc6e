/-
The Gregorian calendar.

Days are counted from the first of January of the year 1, and the calendar goes on before
that day as it does after it.  Four hundred years are a whole number of days; in them, a
century has a day more when it is the last of the four, and four years have a day more
unless they end a century that has none.
-/
import Mathlib.Data.Fintype.Basic
import Mathlib.Tactic.Ring

namespace Calendar

structure Date where
  year : Int
  month : Int
  day : Int
deriving DecidableEq

def isLeap (year : Int) : Bool := year % 4 = 0 && (year % 100 ≠ 0 || year % 400 = 0)

/-- The days of a common year before the month with an index. -/
def daysBefore (index : Int) : Int :=
  [0, 31, 59, 90, 120, 151, 181, 212, 243, 273, 304, 334, 365].getD index.toNat 365

def daysSince (year : Int) : Int :=
  365 * (year - 1) + (year - 1) / 4 - (year - 1) / 100 + (year - 1) / 400

/-- The month and the day of a day of the year. -/
def monthOf (leap : Bool) (yearDay : Int) : Int × Int :=
  if leap && yearDay = 59 then (2, 29)
  else
    let yearDay := if leap && 59 < yearDay then yearDay - 1 else yearDay
    let index := yearDay / 31
    if daysBefore (index + 1) ≤ yearDay then (index + 2, yearDay - daysBefore (index + 1) + 1)
    else (index + 1, yearDay - daysBefore index + 1)

def monthStart (leap : Bool) (month : Int) : Int :=
  daysBefore (month - 1) + if leap && 2 < month then 1 else 0

/-- The year of a day, and which of its days it is. -/
def yearOf (days : Int) : Int × Int :=
  let cycle := days / 146097
  let days := days % 146097
  let century := days / 36524 - days / 36524 / 4
  let days := days - 36524 * century
  let olympiad := days / 1461
  let days := days % 1461
  let year := days / 365 - days / 365 / 4
  (400 * cycle + 100 * century + 4 * olympiad + year + 1, days - 365 * year)

def date (days : Int) : Date :=
  let (year, yearDay) := yearOf days
  let (month, day) := monthOf (isLeap year) yearDay
  ⟨year, month, day⟩

/-- The day of a date.  A day of the month that the month has not is counted on. -/
def days (d : Date) : Int := daysSince d.year + monthStart (isLeap d.year) d.month + d.day - 1

/-! ### There and back -/

/-- A day is the sum of the days before its year and of its day of the year, and only a leap
year has a day with the index 365. -/
theorem yearOf_spec (n : Int) :
    daysSince (yearOf n).1 + (yearOf n).2 = n ∧ 0 ≤ (yearOf n).2 ∧
      ((yearOf n).2 < 365 ∨ (yearOf n).2 = 365 ∧ isLeap (yearOf n).1 = true) := by
  unfold yearOf
  dsimp only
  generalize hd : n % 146097 = d
  generalize hcycle : n / 146097 = cycle
  generalize hc : d / 36524 - d / 36524 / 4 = c
  have century : 0 ≤ c ∧ c ≤ 3 ∧ 0 ≤ d - 36524 * c ∧ d - 36524 * c ≤ 36524 ∧
      (d - 36524 * c = 36524 → c = 3) := by omega
  generalize hd₂ : d - 36524 * c = d₂ at century ⊢
  generalize ho : d₂ / 1461 = o
  generalize hd₃ : d₂ % 1461 = d₃
  have olympiad : 0 ≤ o ∧ o ≤ 24 ∧ 0 ≤ d₃ ∧ d₃ ≤ 1460 ∧ (d₃ = 1460 → o = 24 → c = 3) := by omega
  generalize hr : d₃ / 365 - d₃ / 365 / 4 = r
  have year : 0 ≤ r ∧ r ≤ 3 ∧ 0 ≤ d₃ - 365 * r ∧ d₃ - 365 * r ≤ 365 ∧
      (d₃ - 365 * r = 365 → r = 3 ∧ d₃ = 1460) := by omega
  refine ⟨?_, year.2.2.1, ?_⟩
  · have four : (400 * cycle + 100 * c + 4 * o + r) / 4 = 100 * cycle + 25 * c + o := by omega
    have hundred : (400 * cycle + 100 * c + 4 * o + r) / 100 = 4 * cycle + c := by omega
    have cycles : (400 * cycle + 100 * c + 4 * o + r) / 400 = cycle := by omega
    rw [daysSince, add_sub_cancel_right, four, hundred, cycles]
    omega
  · by_cases last : d₃ - 365 * r = 365
    · right
      obtain ⟨rfl, whole⟩ := year.2.2.2.2 last
      refine ⟨last, ?_⟩
      simp only [isLeap, Bool.and_eq_true, Bool.or_eq_true, decide_eq_true_eq]
      omega
    · left
      omega

/-- What a day of the year is, and where its month begins. -/
theorem monthOf_spec {leap : Bool} {yearDay : Int} (low : 0 ≤ yearDay)
    (high : yearDay < 365 ∨ yearDay = 365 ∧ leap = true) :
    monthStart leap (monthOf leap yearDay).1 + (monthOf leap yearDay).2 - 1 = yearDay ∧
      1 ≤ (monthOf leap yearDay).1 ∧ (monthOf leap yearDay).1 ≤ 12 ∧
      1 ≤ (monthOf leap yearDay).2 ∧ (monthOf leap yearDay).2 ≤ 31 ∧
      ((monthOf leap yearDay).1 = 2 → (monthOf leap yearDay).2 ≤ 29) := by
  have all : ∀ leap : Bool, ∀ n : Fin 366, n.val < 365 ∨ leap = true →
      monthStart leap (monthOf leap n.val).1 + (monthOf leap n.val).2 - 1 = n.val ∧
        1 ≤ (monthOf leap n.val).1 ∧ (monthOf leap n.val).1 ≤ 12 ∧
        1 ≤ (monthOf leap n.val).2 ∧ (monthOf leap n.val).2 ≤ 31 ∧
        ((monthOf leap n.val).1 = 2 → (monthOf leap n.val).2 ≤ 29) := by
    decide +kernel
  have bound : yearDay.toNat < 366 := by omega
  have found := all leap ⟨yearDay.toNat, bound⟩ (high.imp (fun _ => by dsimp only; omega) And.right)
  have back : ((yearDay.toNat : Nat) : Int) = yearDay := Int.toNat_of_nonneg low
  dsimp only at found
  rw [back] at found
  exact found

theorem date_spec (n : Int) :
    days (date n) = n ∧ 1 ≤ (date n).month ∧ (date n).month ≤ 12 ∧ 1 ≤ (date n).day ∧
      (date n).day ≤ 31 ∧ ((date n).month = 2 → (date n).day ≤ 29) := by
  obtain ⟨sum, low, high⟩ := yearOf_spec n
  obtain ⟨start, rest⟩ := monthOf_spec low high
  refine ⟨?_, rest⟩
  unfold days date
  dsimp only
  omega

/-- The same date four years on is four years of days away, give or take a few. -/
theorem days_four_years (n : Int) :
    n + 1459 ≤ days { date n with year := (date n).year + 4 } ∧
      days { date n with year := (date n).year + 4 } ≤ n + 1463 := by
  have back := (date_spec n).1
  unfold days at back ⊢
  dsimp only
  have starts : ∀ leap month, daysBefore (month - 1) ≤ monthStart leap month ∧
      monthStart leap month ≤ daysBefore (month - 1) + 1 := by
    intro leap month
    unfold monthStart
    split
    · omega
    · omega
  have this_year := starts (isLeap (date n).year) (date n).month
  have that_year := starts (isLeap ((date n).year + 4)) (date n).month
  have years : daysSince (date n).year + 1460 ≤ daysSince ((date n).year + 4) ∧
      daysSince ((date n).year + 4) ≤ daysSince (date n).year + 1462 := by
    unfold daysSince
    omega
  omega

end Calendar
