/-
Every question has its day.

A shuffle exchanges places, so the order of a round has every question once, whatever the
generator draws below one.  The days of a round go through its order one by one.  The
calendar only has to number the days of a year without a gap from 1 on.
-/
import Memos.Web.DailyQuestion

namespace Memos.Web

open Calendar

/-! ### The order of a round -/

def Generator.DrawsFractions (generator : Generator) : Prop :=
  ∀ seed drawn, 0 ≤ generator seed drawn ∧ generator seed drawn < 1

theorem draw_bounds {random : Nat → Rat} (fraction : ∀ drawn, 0 ≤ random drawn ∧ random drawn < 1)
    (drawn : Nat) {n : Nat} (positive : 0 < n) :
    0 ≤ draw random drawn n ∧ draw random drawn n < n := by
  obtain ⟨low, high⟩ := fraction drawn
  have n_pos : (0 : Rat) < n := by exact_mod_cast positive
  constructor
  · exact Int.floor_nonneg.mpr (mul_nonneg low n_pos.le)
  · rw [draw, Int.floor_lt]
    calc random drawn * n < 1 * n := mul_lt_mul_of_pos_right high n_pos
      _ = ((n : Int) : Rat) := by rw [one_mul, Int.cast_natCast]

theorem exchange_perm {order : Array Nat} {i : Nat} {j : Int} (inside : i < order.size) (low : 0 ≤ j)
    (high : j < order.size) : ∃ order', exchange order i j = some order' ∧ order'.Perm order := by
  have h : i < order.size ∧ j.toNat < order.size := ⟨inside, by omega⟩
  refine ⟨order.swap i j.toNat h.1 h.2, ?_, Array.swap_perm h.1 h.2⟩
  unfold exchange
  rw [if_pos low, dif_pos h]

theorem shuffle_perm {random : Nat → Rat} (fraction : ∀ drawn, 0 ≤ random drawn ∧ random drawn < 1)
    (i drawn : Nat) {order : Array Nat} (inside : i < order.size ∨ i = 0) :
    ∃ order', shuffle random i drawn order = some order' ∧ order'.Perm order := by
  induction i generalizing drawn order with
  | zero => exact ⟨order, rfl, .refl order⟩
  | succ i ih =>
      have inside : i + 1 < order.size := inside.resolve_right (Nat.succ_ne_zero i)
      obtain ⟨low, high⟩ := draw_bounds fraction drawn (by omega : 0 < i + 2)
      obtain ⟨exchanged, done, perm⟩ := exchange_perm inside low (by omega)
      have size : exchanged.size = order.size := perm.size_eq
      obtain ⟨order', result, perm'⟩ :
          ∃ order', shuffle random i (drawn + 1) exchanged = some order' ∧ order'.Perm exchanged :=
        ih (drawn + 1) (.inl (by omega))
      refine ⟨order', ?_, perm'.trans perm⟩
      rw [shuffle, done]
      exact result

variable {generator : Generator}

theorem yearOrder_perm (fraction : generator.DrawsFractions) (count : Nat) (year : Int)
    (seed : String) (round : Int) :
    ∃ order, yearOrder generator count year seed round = some order ∧
      order.toList.Perm (List.range count) := by
  have inside : count - 1 < (Array.range count).size ∨ count - 1 = 0 := by
    rw [Array.size_range]
    omega
  obtain ⟨order, result, perm⟩ : ∃ order, yearOrder generator count year seed round = some order ∧
      order.Perm (Array.range count) := shuffle_perm (fraction _) (count - 1) 0 inside
  refine ⟨order, result, ?_⟩
  rw [← Array.toList_range]
  exact perm.toList

/-! ### The days of a year -/

/-- A date of the calendar. -/
structure IsDate (date : Date) : Prop where
  month : 1 ≤ date.month ∧ date.month ≤ 12
  first : 1 ≤ date.day
  last : monthStart (isLeap date.year) date.month + date.day ≤
    monthStart (isLeap date.year) (date.month + 1)

theorem isLeap_of_utcYear {year : Int} (h : isLeap (utcYear year) = true) : isLeap year = true := by
  unfold utcYear at h
  by_cases short : 0 ≤ year ∧ year ≤ 99
  · rw [if_pos short] at h
    simp only [isLeap, Bool.and_eq_true, Bool.or_eq_true, decide_eq_true_eq] at h ⊢
    omega
  · rw [if_neg short] at h
    exact h

theorem dayOfYear_eq (date : Date) :
    dayOfYear date = monthStart (isLeap (utcYear date.year)) date.month + date.day := by
  have start : ∀ leap, monthStart leap 1 = 0 := by decide
  unfold dayOfYear days
  dsimp only
  rw [start]
  omega

theorem monthStart_bounds {month : Int} (h : 1 ≤ month ∧ month ≤ 12) (leap : Bool) :
    0 ≤ monthStart leap month ∧ monthStart leap (month + 1) ≤ 366 ∧
      monthStart false month ≤ monthStart leap month := by
  have all : ∀ leap : Bool, ∀ n : Fin 12, 0 ≤ monthStart leap (n.val + 1) ∧
      monthStart leap (n.val + 1 + 1) ≤ 366 ∧
      monthStart false (n.val + 1) ≤ monthStart leap (n.val + 1) := by
    decide
  have found := all leap ⟨(month - 1).toNat, by omega⟩
  have back : (((month - 1).toNat : Nat) : Int) + 1 = month := by omega
  dsimp only at found
  rw [back] at found
  exact found

theorem dayOfYear_bounds {date : Date} (h : IsDate date) :
    1 ≤ dayOfYear date ∧ dayOfYear date ≤ 366 := by
  obtain ⟨low, high, common⟩ := monthStart_bounds h.month (isLeap date.year)
  have start := (monthStart_bounds h.month (isLeap (utcYear date.year))).1
  have first := h.first
  have last := h.last
  have before : monthStart (isLeap (utcYear date.year)) date.month ≤
      monthStart (isLeap date.year) date.month := by
    cases utc : isLeap (utcYear date.year) with
    | false => exact common
    | true => rw [isLeap_of_utcYear utc]
  rw [dayOfYear_eq]
  omega

theorem exists_day (year : Int) {day : Int} (low : 1 ≤ day) (high : day ≤ 365) :
    ∃ date, IsDate date ∧ date.year = year ∧ dayOfYear date = day := by
  have all : ∀ utc leap : Bool, (utc = true → leap = true) → ∀ n : Fin 365,
      monthStart leap (monthOf utc n.val).1 + (monthOf utc n.val).2 ≤
        monthStart leap ((monthOf utc n.val).1 + 1) := by
    decide +kernel
  obtain ⟨number, m₁, m₂, first, -⟩ :=
    @monthOf_spec (isLeap (utcYear year)) (day - 1) (by omega) (.inl (by omega))
  have last := all (isLeap (utcYear year)) (isLeap year) isLeap_of_utcYear ⟨(day - 1).toNat, by omega⟩
  have back : (((day - 1).toNat : Nat) : Int) = day - 1 := by omega
  dsimp only at last
  rw [back] at last
  refine ⟨⟨year, (monthOf (isLeap (utcYear year)) (day - 1)).1,
    (monthOf (isLeap (utcYear year)) (day - 1)).2⟩, ⟨⟨m₁, m₂⟩, first, last⟩, rfl, ?_⟩
  rw [dayOfYear_eq]
  dsimp only
  omega

/-! ### The question of a day -/

theorem questionIndexFor_of_le {date : Date} {count : Nat} {seed : String} {order : Array Nat}
    (positive : 0 < count) (common : dayOfYear date ≤ 365)
    (made : yearOrder generator count date.year seed ((dayOfYear date - 1) / count) = some order) :
    questionIndexFor generator date count seed =
      order.toList[((dayOfYear date - 1) % count).toNat]? := by
  unfold questionIndexFor
  rw [if_neg (Nat.not_le.mpr positive)]
  dsimp only
  rw [if_pos common, made, Option.bind_eq_bind, Option.bind_some, if_pos common,
    Array.getElem?_toList]

/-- What a day shows is in the order of its round. -/
theorem questionIndexFor_round (fraction : generator.DrawsFractions) {date : Date} {count : Nat}
    (seed : String) (positive : 0 < count) (common : dayOfYear date ≤ 365) :
    ∃ order : List Nat, order.Perm (List.range count) ∧
      (yearOrder generator count date.year seed ((dayOfYear date - 1) / count)).map Array.toList =
        some order ∧
      questionIndexFor generator date count seed =
        order[((dayOfYear date - 1) % count).toNat]? := by
  obtain ⟨order, made, perm⟩ := yearOrder_perm fraction count date.year seed
    ((dayOfYear date - 1) / count)
  exact ⟨order.toList, perm, by rw [made, Option.map_some],
    questionIndexFor_of_le positive common made⟩

/-- Two days of one round do not show the same question. -/
theorem dayOfYear_eq_of_same (fraction : generator.DrawsFractions) {date date' : Date} {count : Nat}
    {seed : String} (positive : 0 < count) (year : date.year = date'.year)
    (common : dayOfYear date ≤ 365) (common' : dayOfYear date' ≤ 365)
    (round : (dayOfYear date - 1) / count = (dayOfYear date' - 1) / count)
    (same : questionIndexFor generator date count seed = questionIndexFor generator date' count seed) :
    dayOfYear date = dayOfYear date' := by
  obtain ⟨order, perm, made, shown⟩ := questionIndexFor_round fraction seed positive common
  obtain ⟨order', -, made', shown'⟩ := questionIndexFor_round fraction seed positive common'
  rw [year, round, made', Option.some.injEq] at made
  subst made
  have nonneg : 0 ≤ (dayOfYear date - 1) % count := Int.emod_nonneg _ (by omega)
  have below : (dayOfYear date - 1) % count < count := Int.emod_lt_of_pos _ (by omega)
  have nonneg' : 0 ≤ (dayOfYear date' - 1) % count := Int.emod_nonneg _ (by omega)
  have size : order'.length = count := by rw [perm.length_eq, List.length_range]
  rw [shown, shown'] at same
  have place := (List.getElem?_inj (by omega) (perm.nodup_iff.mpr List.nodup_range)).mp same
  have whole := Int.mul_ediv_add_emod (dayOfYear date - 1) count
  have whole' := Int.mul_ediv_add_emod (dayOfYear date' - 1) count
  rw [round] at whole
  omega

theorem questionIndexFor_last (fraction : generator.DrawsFractions) {date : Date} {count : Nat}
    (seed : String) (positive : 0 < count) (rare : 365 < dayOfYear date) :
    ∃ index < count, questionIndexFor generator date count seed = some index := by
  obtain ⟨order, made, perm⟩ := yearOrder_perm fraction count date.year seed 0
  obtain ⟨low, high⟩ := draw_bounds (fraction (hashText s!"{date.year}:{seed}:366")) 0 positive
  have size : order.size = count := by
    rw [← Array.length_toList, perm.length_eq, List.length_range]
  have inside : (draw (generator (hashText s!"{date.year}:{seed}:366")) 0 count).toNat < order.size := by
    omega
  refine ⟨order[(draw (generator (hashText s!"{date.year}:{seed}:366")) 0 count).toNat], ?_, ?_⟩
  · exact List.mem_range.mp (perm.mem_iff.mp (by simp))
  · unfold questionIndexFor
    rw [if_neg (Nat.not_le.mpr positive)]
    dsimp only
    rw [if_neg (Int.not_le.mpr rare), made, Option.bind_eq_bind, Option.bind_some,
      if_neg (Int.not_le.mpr rare), Array.getElem?_eq_getElem inside]

/-- **Every day has a question, and no question comes again before all have been shown.**

For every number of questions, seed and year, and for every generator that draws fractions:
the order of each round has each question once; every date has a question; a whole round of
days among the first 365 shows each question on exactly one of its days; and with 365
questions or more none comes twice on those days. -/
theorem questionIndexFor_correct (fraction : generator.DrawsFractions) (count : Nat)
    (positive : 0 < count) (seed : String) (year : Int) :
    (∀ round, ∃ order, yearOrder generator count year seed round = some order ∧
      order.toList.Perm (List.range count)) ∧
    (∀ date, IsDate date → date.year = year → 1 ≤ dayOfYear date ∧ dayOfYear date ≤ 366 ∧
      ∃ index < count, questionIndexFor generator date count seed = some index) ∧
    (∀ k : Nat, (k + 1) * count ≤ 365 → ∀ index < count,
      (∃ date, IsDate date ∧ date.year = year ∧ k * count + 1 ≤ dayOfYear date ∧
        dayOfYear date ≤ (k + 1) * count ∧
        questionIndexFor generator date count seed = some index) ∧
      ∀ date date', IsDate date → IsDate date' → date.year = year → date'.year = year →
        k * count + 1 ≤ dayOfYear date → dayOfYear date ≤ (k + 1) * count →
        k * count + 1 ≤ dayOfYear date' → dayOfYear date' ≤ (k + 1) * count →
        questionIndexFor generator date count seed = some index →
        questionIndexFor generator date' count seed = some index →
        dayOfYear date = dayOfYear date') ∧
    (365 ≤ count → ∀ date date', IsDate date → IsDate date' → date.year = year →
      date'.year = year → dayOfYear date ≤ 365 → dayOfYear date' ≤ 365 →
      questionIndexFor generator date count seed = questionIndexFor generator date' count seed →
      dayOfYear date = dayOfYear date') := by
  have in_round : ∀ (k : Nat) (day : Int), k * count + 1 ≤ day → day ≤ (k + 1) * count →
      (day - 1) / count = k ∧ (day - 1) % count = day - 1 - k * count := by
    intro k day low high
    have next : ((k : Int) + 1) * count = k * count + count := by ring
    have quotient : (day - 1) / count = k := by
      rw [Int.ediv_eq_iff_of_pos (by omega)]
      omega
    have whole := Int.mul_ediv_add_emod (day - 1) count
    rw [quotient, Int.mul_comm] at whole
    exact ⟨quotient, by omega⟩
  refine ⟨yearOrder_perm fraction count year seed, ?_, ?_, ?_⟩
  · rintro date valid -
    obtain ⟨low, high⟩ := dayOfYear_bounds valid
    refine ⟨low, high, ?_⟩
    by_cases common : dayOfYear date ≤ 365
    · obtain ⟨order, perm, -, shown⟩ := questionIndexFor_round fraction seed positive common
      have size : order.length = count := by rw [perm.length_eq, List.length_range]
      have below : (dayOfYear date - 1) % count < count := Int.emod_lt_of_pos _ (by omega)
      have inside : ((dayOfYear date - 1) % count).toNat < order.length := by omega
      refine ⟨order[((dayOfYear date - 1) % count).toNat], ?_, ?_⟩
      · exact List.mem_range.mp (perm.mem_iff.mp (List.getElem_mem inside))
      · rw [shown, List.getElem?_eq_getElem inside]
    · exact questionIndexFor_last fraction seed positive (Int.not_le.mp common)
  · intro k whole index below
    have within : ((k : Int) + 1) * count ≤ 365 := by exact_mod_cast whole
    constructor
    · obtain ⟨order, made, perm⟩ := yearOrder_perm fraction count year seed k
      obtain ⟨i, inside, there⟩ := List.getElem_of_mem (perm.mem_iff.mpr (List.mem_range.mpr below))
      have size : order.toList.length = count := by rw [perm.length_eq, List.length_range]
      have next : ((k : Int) + 1) * count = k * count + count := by ring
      have start : 0 ≤ (k : Int) * count := by positivity
      obtain ⟨date, valid, same, day⟩ : ∃ date, IsDate date ∧ date.year = year ∧
          dayOfYear date = k * count + 1 + i := exists_day year (by omega) (by omega)
      refine ⟨date, valid, same, by omega, by omega, ?_⟩
      obtain ⟨quotient, rest⟩ := in_round k (dayOfYear date) (by omega) (by omega)
      have place : ((dayOfYear date - 1) % count).toNat = i := by omega
      rw [questionIndexFor_of_le positive (by omega) (by rw [quotient, same]; exact made), place,
        List.getElem?_eq_getElem inside, there]
    · intro date date' _ _ same same' low high low' high' shown shown'
      refine dayOfYear_eq_of_same fraction positive (same.trans same'.symm) (by omega) (by omega)
        ?_ (shown.trans shown'.symm)
      rw [(in_round k _ low high).1, (in_round k _ low' high').1]
  · intro many date date' valid valid' same same' common common' shown
    have zero : ∀ date, IsDate date → dayOfYear date ≤ 365 → (dayOfYear date - 1) / count = 0 := by
      intro date valid common
      obtain ⟨low, -⟩ := dayOfYear_bounds valid
      exact Int.ediv_eq_zero_of_lt (by omega) (by omega)
    refine dayOfYear_eq_of_same fraction positive (same.trans same'.symm) common common' ?_ shown
    rw [zero date valid common, zero date' valid' common']

theorem seededRandom_drawsFractions : Generator.DrawsFractions seededRandom := by
  intro seed drawn
  unfold seededRandom
  generalize (mulberry _).2 = number
  have bound : (number.toNat : Rat) < 4294967296 := by exact_mod_cast number.toNat_lt
  constructor
  · positivity
  · rw [div_lt_one (by norm_num)]
    exact bound

/-- Seven questions in a leap year: its last day has one of them. -/
theorem questionIndexFor_correct_leapDay :
    ∃ index < 7, questionIndexFor seededRandom ⟨2024, 12, 31⟩ 7 "memos" = some index :=
  ((questionIndexFor_correct seededRandom_drawsFractions 7 (by decide) "memos" 2024).2.1
    ⟨2024, 12, 31⟩ ⟨by decide, by decide, by decide⟩ rfl).2.2

end Memos.Web
