/-
What a schedule matches, and what the documentation says it does.

The documentation gives each form of a field a set of values; both 0 and 7 are Sunday, and
a time matches when all fields name it, except that the two fields for the day are
alternatives when neither is a star.  Every field is parsed into a matcher of its values.
The day is another matter: the schedule takes the two matchers as alternatives always, and
it asks the weekday for 0 on a Sunday and never for 7.
-/
import Memos.Scheduler.Runner

namespace Memos.Scheduler

open Api (isSpace trimSpace fieldsFunc)

/-! ### What a field names -/

/-- The documented values of a field: any, every so many from the first one on, a range, or
those of a list, which may be a single one. -/
def Names (min max : Int) (field : List Char) (v : Int) : Prop :=
  field = ['*'] ∨
  (∃ n step, field = '*' :: '/' :: n ∧ Atoi n = some step ∧ min ≤ v ∧ v ≤ max ∧ step ∣ v - min) ∨
  (∃ a b start stop, field = a ++ '-' :: b ∧ Atoi a = some start ∧ Atoi b = some stop ∧
    start ≤ v ∧ v ≤ stop) ∨
  ∃ part ∈ field.splitOn ',', Atoi part = some v

/-- A weekday by its number; 7 is Sunday too. -/
def NamesWeekday (field : List Char) (weekday : Int) : Prop :=
  Names 0 7 field weekday ∨ weekday = 0 ∧ Names 0 7 field 7

/-- The two fields for the day are alternatives only when neither is a star. -/
def NamesDay (day weekday : List Char) (t : Time) : Prop :=
  if day = ['*'] then NamesWeekday weekday t.Weekday
  else if weekday = ['*'] then Names 1 31 day t.Day
  else Names 1 31 day t.Day ∨ NamesWeekday weekday t.Weekday

def sixFields (expr : List Char) : List (List Char) :=
  if (fieldsOf expr).length = 6 then fieldsOf expr else ['0'] :: fieldsOf expr

/-- The fields other than those for the day. -/
def NamesRest (expr : List Char) (t : Time) : Prop :=
  Names 0 59 ((sixFields expr).getD 0 []) t.Second ∧ Names 0 59 ((sixFields expr).getD 1 []) t.Minute ∧
  Names 0 23 ((sixFields expr).getD 2 []) t.Hour ∧ Names 1 12 ((sixFields expr).getD 4 []) t.Month

def dayField (expr : List Char) : List Char := (sixFields expr).getD 3 []

def weekdayField (expr : List Char) : List Char := (sixFields expr).getD 5 []

def Documented (expr : List Char) (t : Time) : Prop :=
  NamesRest expr t ∧ NamesDay (dayField expr) (weekdayField expr) t

/-! ### Numbers -/

theorem number_chars {digits : List Char} {v : Int} (h : number digits = some v) :
    digits ≠ [] ∧ ∀ c ∈ digits, isDigit c = true := by
  unfold number at h
  by_cases bad : (digits.isEmpty || !digits.all isDigit) = true
  · rw [if_pos bad] at h
    cases h
  · rw [Bool.or_eq_true, not_or, Bool.not_eq_true', Bool.not_eq_false, List.all_eq_true] at bad
    exact ⟨fun empty => bad.1 (List.isEmpty_iff.mpr empty), bad.2⟩

/-- A sign or a digit, and digits after it. -/
theorem Atoi_chars {s : List Char} {v : Int} (h : Atoi s = some v) :
    ∃ first rest, s = first :: rest ∧ (isDigit first = true ∨ first = '+' ∨ first = '-') ∧
      ∀ c ∈ rest, isDigit c = true := by
  unfold Atoi at h
  obtain ⟨value, -⟩ := Option.filter_eq_some_iff.mp h
  split at value
  · exact ⟨'+', _, rfl, .inr (.inl rfl), (number_chars value).2⟩
  · obtain ⟨n, digits, -⟩ := Option.map_eq_some_iff.mp value
    exact ⟨'-', _, rfl, .inr (.inr rfl), (number_chars digits).2⟩
  · obtain ⟨nonempty, digits⟩ := number_chars value
    obtain ⟨first, rest, rfl⟩ := List.exists_cons_of_ne_nil nonempty
    exact ⟨first, rest, rfl, .inl (digits first List.mem_cons_self),
      fun c hc => digits c (List.mem_cons_of_mem first hc)⟩

theorem Atoi_mem {s : List Char} {v : Int} (h : Atoi s = some v) {c : Char} (mem : c ∈ s) :
    isDigit c = true ∨ c = '+' ∨ c = '-' := by
  obtain ⟨first, rest, rfl, starts, digits⟩ := Atoi_chars h
  rcases List.mem_cons.mp mem with rfl | mem
  · exact starts
  · exact .inl (digits c mem)

theorem Atoi_comma {s : List Char} {v : Int} (h : Atoi s = some v) : ',' ∉ s := by
  intro mem
  exact absurd (Atoi_mem h mem) (by decide)

theorem Atoi_star {s : List Char} : Atoi ('*' :: s) = none := by
  cases h : Atoi ('*' :: s) with
  | none => rfl
  | some v => exact absurd (Atoi_mem h List.mem_cons_self) (by decide)

/-- A dash may only come first. -/
theorem Atoi_dash {a b : List Char} {v w : Int} (start : Atoi a = some w) :
    Atoi (a ++ '-' :: b) ≠ some v := by
  intro h
  obtain ⟨first, rest, rfl, -, -⟩ := Atoi_chars start
  obtain ⟨first', rest', same, -, digits⟩ := Atoi_chars h
  rw [List.cons_append, List.cons.injEq] at same
  exact absurd (digits '-' (same.2 ▸ List.mem_append_right rest List.mem_cons_self)) (by decide)

/-! ### Parts of a field -/

/-- The parts between separators have no separator, and nothing that was not there before. -/
theorem of_mem_splitOnP {p : Char → Bool} {s part : List Char} (h : part ∈ s.splitOnP p) {c : Char}
    (mem : c ∈ part) : c ∈ s ∧ p c = false := by
  induction s generalizing part with
  | nil =>
      rw [List.splitOnP_nil, List.mem_singleton] at h
      rw [h] at mem
      cases mem
  | cons x s ih =>
      rw [List.splitOnP_cons_eq_if_modifyHead] at h
      by_cases separator : p x = true
      · rw [if_pos separator, List.mem_cons] at h
        rcases h with rfl | h
        · cases mem
        · exact (ih h mem).imp_left (List.mem_cons_of_mem x)
      · rw [if_neg separator] at h
        obtain ⟨first, rest, parts⟩ := List.exists_cons_of_ne_nil (List.splitOnP_ne_nil p s)
        rw [parts, List.modifyHead_cons, List.mem_cons] at h
        rw [parts] at ih
        rcases h with rfl | h
        · rcases List.mem_cons.mp mem with rfl | mem
          · exact ⟨List.mem_cons_self, Bool.eq_false_iff.mpr separator⟩
          · exact (ih List.mem_cons_self mem).imp_left (List.mem_cons_of_mem x)
        · exact (ih (List.mem_cons_of_mem first h) mem).imp_left (List.mem_cons_of_mem x)

theorem trimSpace_of_free {s : List Char} (free : ∀ c ∈ s, isSpace c = false) : trimSpace s = s := by
  have stays : ∀ l : List Char, (∀ c ∈ l, isSpace c = false) → l.dropWhile isSpace = l := by
    intro l free
    cases l with
    | nil => rfl
    | cons c l => rw [List.dropWhile_cons_of_neg (by rw [free c List.mem_cons_self]; decide)]
  rw [trimSpace, stays s free, stays s.reverse fun c hc => free c (List.mem_reverse.mp hc),
    List.reverse_reverse]

theorem fieldsOf_free {expr field : List Char} (mem : field ∈ fieldsOf expr) :
    ∀ c ∈ field, isSpace c = false := by
  unfold fieldsOf fieldsFunc at mem
  exact fun c hc => (of_mem_splitOnP (List.mem_filter.mp mem).1 hc).2

theorem trimSpace_part {field part : List Char} {separator : Char}
    (free : ∀ c ∈ field, isSpace c = false) (mem : part ∈ field.splitOn separator) :
    trimSpace part = part :=
  trimSpace_of_free fun c hc => free c (of_mem_splitOnP mem hc).1

/-! ### Each form of a field -/

variable {min max : Int} {field : List Char} {m : FieldMatcher}

/-- A field that starts with a star names no list and no range. -/
theorem names_star {rest : List Char} (no_comma : ',' ∉ rest) (v : Int) :
    Names min max ('*' :: rest) v ↔ rest = [] ∨
      ∃ n step, rest = '/' :: n ∧ Atoi n = some step ∧ min ≤ v ∧ v ≤ max ∧ step ∣ v - min := by
  unfold Names
  constructor
  · rintro (star | ⟨n, step, same, rest⟩ | ⟨a, b, start, stop, same, first, -⟩ | ⟨part, mem, value⟩)
    · exact .inl (List.cons.inj star).2
    · exact .inr ⟨n, step, (List.cons.inj same).2, rest⟩
    · obtain ⟨c, a, rfl, -, -⟩ := Atoi_chars first
      rw [List.cons_append, List.cons.injEq] at same
      rw [← same.1, Atoi_star] at first
      cases first
    · have whole : ',' ∉ '*' :: rest := fun mem =>
        (List.mem_cons.mp mem).elim (by decide) no_comma
      rw [List.splitOn_eq_singleton whole, List.mem_singleton] at mem
      rw [mem, Atoi_star] at value
      cases value
  · rintro (rfl | ⟨n, step, rfl, more⟩)
    · exact .inl rfl
    · exact .inr (.inl ⟨n, step, rfl, more⟩)

theorem parseStep_names {rest : List Char} (ok : parseStep min max field rest = .ok m)
    (is : field = '*' :: '/' :: rest) (v : Int) : m.matches v = true ↔ Names min max field v := by
  unfold parseStep at ok
  cases value : Atoi rest with
  | none =>
      rw [value] at ok
      cases ok
  | some n =>
      rw [value] at ok
      dsimp only at ok
      by_cases bad : (n < 1 || max < n) = true
      · rw [if_pos bad] at ok
        cases ok
      · rw [if_neg bad] at ok
        obtain rfl := Except.ok.inj ok
        have no_comma : ',' ∉ '/' :: rest := fun mem =>
          (List.mem_cons.mp mem).elim (by decide) (Atoi_comma value)
        rw [is, names_star no_comma]
        unfold FieldMatcher.matches
        simp only [reduceCtorEq, false_or, List.cons.injEq, true_and]
        constructor
        · intro matched
          by_cases out : (v < min || max < v) = true
          · rw [if_pos out] at matched
            cases matched
          · rw [if_neg out] at matched
            simp only [Bool.or_eq_true, decide_eq_true_eq, not_or, not_lt] at out matched
            exact ⟨rest, n, rfl, value, out.1, out.2, Int.dvd_of_emod_eq_zero matched⟩
        · rintro ⟨_, step, rfl, value', low, high, divides⟩
          rw [value, Option.some.injEq] at value'
          rw [if_neg (by simp only [Bool.or_eq_true, decide_eq_true_eq]; omega), decide_eq_true_iff,
            value']
          exact Int.emod_eq_zero_of_dvd divides

theorem parseList_names {parts : List (List Char)} {values : List Int}
    (ok : parseList min max parts = .ok values) (trimmed : ∀ p ∈ parts, trimSpace p = p) :
    (∀ v, v ∈ values ↔ ∃ part ∈ parts, Atoi part = some v) ∧
      ∀ p ∈ parts, ∃ v, Atoi p = some v := by
  induction parts generalizing values with
  | nil =>
      obtain rfl := Except.ok.inj ok
      simp
  | cons p parts ih =>
      unfold parseList at ok
      rw [trimmed p List.mem_cons_self] at ok
      cases value : Atoi p with
      | none =>
          rw [value] at ok
          cases ok
      | some n =>
          rw [value] at ok
          dsimp only at ok
          by_cases bad : (n < min || max < n) = true
          · rw [if_pos bad] at ok
            cases ok
          · rw [if_neg bad] at ok
            cases rest : parseList min max parts with
            | error err =>
                rw [rest] at ok
                cases ok
            | ok more =>
                rw [rest] at ok
                obtain rfl := Except.ok.inj ok
                obtain ⟨mem, all⟩ := ih rest fun p hp => trimmed p (List.mem_cons_of_mem _ hp)
                constructor
                · intro v
                  rw [List.mem_cons, mem, List.exists_mem_cons_iff, value, Option.some.injEq, eq_comm]
                · intro q hq
                  rcases List.mem_cons.mp hq with rfl | hq
                  · exact ⟨n, value⟩
                  · exact all q hq

/-- A field that is neither a star nor a step names a range or the values of a list. -/
theorem names_plain (no_star : field ≠ ['*']) (no_step : field.take 2 ≠ ['*', '/']) (v : Int) :
    Names min max field v ↔
      (∃ a b start stop, field = a ++ '-' :: b ∧ Atoi a = some start ∧ Atoi b = some stop ∧
        start ≤ v ∧ v ≤ stop) ∨ ∃ part ∈ field.splitOn ',', Atoi part = some v := by
  unfold Names
  rw [or_iff_right no_star, or_iff_right]
  rintro ⟨n, step, rfl, -⟩
  exact no_step rfl

theorem parseList_field {values : List Int} (ok : parseList min max (field.splitOn ',') = .ok values)
    (free : ∀ c ∈ field, isSpace c = false) (no_star : field ≠ ['*'])
    (no_step : field.take 2 ≠ ['*', '/']) (comma : ',' ∈ field) (v : Int) :
    (FieldMatcher.list values).matches v = true ↔ Names min max field v := by
  have named := (parseList_names ok fun p hp => trimSpace_part free hp).1 v
  rw [names_plain no_star no_step, ← named, FieldMatcher.matches, List.contains_iff_mem, or_iff_right]
  -- A range has no comma, neither before its dash nor behind it.
  rintro ⟨a, b, start, stop, rfl, first, last, -⟩
  rcases List.mem_append.mp comma with mem | mem
  · exact Atoi_comma first mem
  · exact (List.mem_cons.mp mem).elim (by decide) (Atoi_comma last)

/-- A range has one dash only, so it is read in one way. -/
theorem range_unique {a b first last : List Char} (split : (a ++ '-' :: b).splitOn '-' = [first, last]) :
    a = first ∧ b = last := by
  rw [List.splitOn_append_cons_self] at split
  have back : ∀ s : List Char, ['-'].intercalate (s.splitOn '-') = s := fun s =>
    List.intercalate_splitOn '-'
  have ha := back a
  have hb := back b
  have some_a := List.splitOn_ne_nil '-' a
  have some_b := List.splitOn_ne_nil '-' b
  obtain ⟨x, xs, hx⟩ := List.exists_cons_of_ne_nil some_a
  obtain ⟨y, ys, hy⟩ := List.exists_cons_of_ne_nil some_b
  rw [hx, hy, List.cons_append, List.cons.injEq] at split
  obtain ⟨rfl, split⟩ := split
  cases xs with
  | nil =>
      rw [List.nil_append, List.cons.injEq] at split
      obtain ⟨rfl, rfl⟩ := split
      rw [hx] at ha
      rw [hy] at hb
      exact ⟨by rw [← ha]; simp, by rw [← hb]; simp⟩
  | cons x' xs => simp at split

theorem parseRange_names (ok : parseRange min max field = .ok m)
    (free : ∀ c ∈ field, isSpace c = false) (no_star : field ≠ ['*'])
    (no_step : field.take 2 ≠ ['*', '/']) (no_comma : ',' ∉ field) (v : Int) :
    m.matches v = true ↔ Names min max field v := by
  unfold parseRange at ok
  dsimp only at ok
  split at ok
  · rename_i first last split
    have mem : first ∈ field.splitOn '-' ∧ last ∈ field.splitOn '-' := by
      rw [split]
      exact ⟨List.mem_cons_self, List.mem_cons_of_mem first List.mem_cons_self⟩
    rw [trimSpace_part free mem.1, trimSpace_part free mem.2] at ok
    split at ok
    · rename_i start stop first_value last_value
      split at ok
      · cases ok
      · obtain rfl := Except.ok.inj ok
        have whole : field = first ++ '-' :: last := by
          have back : ['-'].intercalate (field.splitOn '-') = field := List.intercalate_splitOn '-'
          rw [← back, split]
          simp
        rw [names_plain no_star no_step, List.splitOn_eq_singleton no_comma, FieldMatcher.matches,
          Bool.and_eq_true, decide_eq_true_iff, decide_eq_true_iff]
        constructor
        · rintro ⟨low, high⟩
          exact .inl ⟨first, last, start, stop, whole, first_value, last_value, low, high⟩
        · rintro (⟨a, b, start', stop', same, ha, hb, low, high⟩ | ⟨part, mem, value⟩)
          · rw [same] at split
            obtain ⟨rfl, rfl⟩ := range_unique split
            rw [first_value, Option.some.injEq] at ha
            rw [last_value, Option.some.injEq] at hb
            exact ⟨ha ▸ low, hb ▸ high⟩
          · rw [List.mem_singleton.mp mem, whole] at value
            exact absurd value (Atoi_dash first_value)
    · cases ok
  · cases ok

theorem parseValue_names (ok : parseValue min max field = .ok m) (no_star : field ≠ ['*'])
    (no_step : field.take 2 ≠ ['*', '/']) (no_comma : ',' ∉ field) (no_dash : '-' ∉ field) (v : Int) :
    m.matches v = true ↔ Names min max field v := by
  unfold parseValue at ok
  dsimp only at ok
  cases value : Atoi field with
  | none =>
      rw [value] at ok
      cases ok
  | some n =>
      rw [value] at ok
      dsimp only at ok
      split at ok
      · cases ok
      · obtain rfl := Except.ok.inj ok
        rw [names_plain no_star no_step, List.splitOn_eq_singleton no_comma, FieldMatcher.matches,
          decide_eq_true_iff, or_iff_right]
        · constructor
          · rintro rfl
            exact ⟨field, List.mem_singleton_self field, value⟩
          · rintro ⟨part, mem, value'⟩
            rw [List.mem_singleton.mp mem, value, Option.some.injEq] at value'
            exact value'.symm
        · rintro ⟨a, b, -, -, rfl, -⟩
          exact no_dash (List.mem_append_right a List.mem_cons_self)

/-- An accepted field has a matcher for the values it names. -/
theorem parseField_names (ok : parseField field min max = .ok m)
    (free : ∀ c ∈ field, isSpace c = false) (v : Int) :
    m.matches v = true ↔ Names min max field v := by
  unfold parseField at ok
  by_cases star : field = ['*']
  · rw [if_pos star] at ok
    obtain rfl := Except.ok.inj ok
    exact iff_of_true rfl (.inl star)
  · rw [if_neg star] at ok
    by_cases step : field.take 2 = ['*', '/']
    · rw [if_pos step] at ok
      refine parseStep_names ok ?_ v
      rw [← List.take_append_drop 2 field, step]
      rfl
    · rw [if_neg step] at ok
      by_cases comma : ',' ∈ field
      · rw [if_pos comma] at ok
        cases parsed : parseList min max (field.splitOn ',') with
        | error err =>
            rw [parsed] at ok
            cases ok
        | ok values =>
            rw [parsed] at ok
            obtain rfl := Except.ok.inj ok
            exact parseList_field parsed free star step comma v
      · rw [if_neg comma] at ok
        by_cases dash : '-' ∈ field
        · rw [if_pos dash] at ok
          exact parseRange_names ok free star step comma v
        · rw [if_neg dash] at ok
          exact parseValue_names ok star step comma dash v

/-! ### An accepted expression -/

section Accepted

variable {expr : List Char} {s : Schedule}

def fieldAt (expr : List Char) (i : Nat) : List Char := (sixFields expr).getD i []

theorem fieldAt_free (expr : List Char) (i : Nat) : ∀ c ∈ fieldAt expr i, isSpace c = false := by
  intro c hc
  unfold fieldAt at hc
  rw [List.getD_eq_getElem?_getD] at hc
  cases there : (sixFields expr)[i]? with
  | none =>
      rw [there] at hc
      cases hc
  | some field =>
      rw [there, Option.getD_some] at hc
      have mem := List.mem_of_getElem? there
      unfold sixFields at mem
      by_cases six : (fieldsOf expr).length = 6
      · rw [if_pos six] at mem
        exact fieldsOf_free mem c hc
      · rw [if_neg six] at mem
        rcases List.mem_cons.mp mem with rfl | mem
        · rw [List.mem_singleton.mp hc]
          decide
        · exact fieldsOf_free mem c hc

theorem parseNamed_ok {name : String} (ok : parseNamed name field min max = .ok m) :
    parseField field min max = .ok m := by
  unfold parseNamed at ok
  cases parsed : parseField field min max with
  | error err =>
      rw [parsed] at ok
      cases ok
  | ok m' =>
      rw [parsed] at ok
      exact ok

structure Parsed (expr : List Char) (s : Schedule) : Prop where
  seconds : parseField (fieldAt expr 0) 0 59 = .ok s.seconds
  minutes : parseField (fieldAt expr 1) 0 59 = .ok s.minutes
  hours : parseField (fieldAt expr 2) 0 23 = .ok s.hours
  days : parseField (fieldAt expr 3) 1 31 = .ok s.days
  months : parseField (fieldAt expr 4) 1 12 = .ok s.months
  weekdays : parseField (fieldAt expr 5) 0 7 = .ok s.weekdays

theorem bind_parsed {α β : Type} {x : Except String α} {f : α → Except String β} {b : β} :
    (x >>= f) = .ok b ↔ ∃ a, x = .ok a ∧ f a = .ok b := by
  cases x with
  | error err => simp [bind, Except.bind]
  | ok a => simp [bind, Except.bind]

theorem parseFields_ok {hasSecs : Bool} {seconds : FieldMatcher} {fields : List (List Char)}
    (ok : parseFields hasSecs seconds fields = .ok s)
    (same : ∀ i, fields.getD i [] = fieldAt expr (i + 1))
    (first : parseField (fieldAt expr 0) 0 59 = .ok seconds) : Parsed expr s := by
  obtain ⟨minutes, hminutes, ok⟩ := bind_parsed.mp ok
  obtain ⟨hours, hhours, ok⟩ := bind_parsed.mp ok
  obtain ⟨days, hdays, ok⟩ := bind_parsed.mp ok
  obtain ⟨months, hmonths, ok⟩ := bind_parsed.mp ok
  obtain ⟨weekdays, hweekdays, ok⟩ := bind_parsed.mp ok
  obtain rfl := Except.ok.inj ok
  simp only [same] at hminutes hhours hdays hmonths hweekdays
  exact ⟨first, parseNamed_ok hminutes, parseNamed_ok hhours, parseNamed_ok hdays,
    parseNamed_ok hmonths, parseNamed_ok hweekdays⟩

theorem ParseCronExpression_ok (ok : ParseCronExpression expr = .ok s) : Parsed expr s := by
  unfold ParseCronExpression at ok
  dsimp only at ok
  split at ok
  · cases ok
  · split at ok
    · cases ok
    · split at ok
      · rename_i six
        obtain ⟨seconds, hseconds, ok⟩ := bind_parsed.mp ok
        have fields : sixFields expr = fieldsOf expr := if_pos six
        obtain ⟨first, rest, parts⟩ := List.exists_cons_of_ne_nil
          (List.ne_nil_of_length_pos (by omega : 0 < (fieldsOf expr).length))
        refine parseFields_ok ok (fun i => ?_) ?_
        · rw [fieldAt, fields, parts, List.tail_cons, List.getD_cons_succ]
        · rw [fieldAt, fields]
          exact parseNamed_ok hseconds
      · rename_i not_six
        have fields : sixFields expr = ['0'] :: fieldsOf expr := if_neg not_six
        refine parseFields_ok ok (fun i => ?_) ?_
        · rw [fieldAt, fields, List.getD_cons_succ]
        · rw [fieldAt, fields]
          rfl

theorem matches_names_iff (ok : ParseCronExpression expr = .ok s) (t : Time) :
    s.matches t = true ↔ NamesRest expr t ∧
      (Names 1 31 (dayField expr) t.Day ∨ Names 0 7 (weekdayField expr) t.Weekday) := by
  obtain ⟨seconds, minutes, hours, days, months, weekdays⟩ := ParseCronExpression_ok ok
  unfold Schedule.matches
  rw [Bool.and_eq_true, Bool.and_eq_true, Bool.and_eq_true, Bool.and_eq_true, Bool.or_eq_true,
    parseField_names seconds (fieldAt_free expr 0), parseField_names minutes (fieldAt_free expr 1),
    parseField_names hours (fieldAt_free expr 2), parseField_names months (fieldAt_free expr 4),
    parseField_names days (fieldAt_free expr 3), parseField_names weekdays (fieldAt_free expr 5),
    and_assoc, and_assoc, and_assoc, NamesRest, and_assoc, and_assoc, and_assoc]
  rfl

/-- When the other fields name the time: a field for the day that stands beside a star names
it too, and when neither is a star it is no Sunday that is named as 7 alone. -/
def DaysSettled (expr : List Char) (t : Time) : Prop :=
  (dayField expr = ['*'] → weekdayField expr ≠ ['*'] → NamesWeekday (weekdayField expr) t.Weekday) ∧
  (dayField expr ≠ ['*'] → weekdayField expr = ['*'] → Names 1 31 (dayField expr) t.Day) ∧
  (dayField expr ≠ ['*'] → weekdayField expr ≠ ['*'] → t.Weekday = 0 →
    Names 0 7 (weekdayField expr) 7 →
    Names 0 7 (weekdayField expr) 0 ∨ Names 1 31 (dayField expr) t.Day)

theorem daysSettled_iff (expr : List Char) (t : Time) :
    ((Names 1 31 (dayField expr) t.Day ∨ Names 0 7 (weekdayField expr) t.Weekday) ↔
      NamesDay (dayField expr) (weekdayField expr) t) ↔ DaysSettled expr t := by
  have any : ∀ {min max v : Int} {field : List Char}, field = ['*'] → Names min max field v :=
    fun star => .inl star
  unfold NamesDay DaysSettled
  by_cases day : dayField expr = ['*']
  · have matched : Names 1 31 (dayField expr) t.Day ∨ Names 0 7 (weekdayField expr) t.Weekday :=
      .inl (any day)
    rw [if_pos day, iff_true_intro matched, true_iff]
    by_cases weekday : weekdayField expr = ['*']
    · exact iff_of_true (.inl (any weekday)) ⟨fun _ no => absurd weekday no,
        fun no => absurd day no, fun no => absurd day no⟩
    · constructor
      · intro named
        exact ⟨fun _ _ => named, fun no => absurd day no, fun no => absurd day no⟩
      · intro settled
        exact settled.1 day weekday
  · by_cases weekday : weekdayField expr = ['*']
    · have matched : Names 1 31 (dayField expr) t.Day ∨ Names 0 7 (weekdayField expr) t.Weekday :=
        .inr (any weekday)
      rw [if_neg day, if_pos weekday, iff_true_intro matched, true_iff]
      constructor
      · intro named
        exact ⟨fun yes => absurd yes day, fun _ _ => named, fun _ no => absurd weekday no⟩
      · intro settled
        exact settled.2.1 day weekday
    · rw [if_neg day, if_neg weekday]
      unfold NamesWeekday
      constructor
      · intro same
        refine ⟨fun yes => absurd yes day, fun _ yes => absurd yes weekday, fun _ _ sunday seven => ?_⟩
        rcases same.mpr (.inr (.inr ⟨sunday, seven⟩)) with named | named
        · exact .inr named
        · exact .inl (sunday ▸ named)
      · intro settled
        constructor
        · rintro (named | named)
          · exact .inl named
          · exact .inr (.inl named)
        · rintro (named | named | ⟨sunday, seven⟩)
          · exact .inl named
          · exact .inr named
          · rcases settled.2.2 day weekday sunday seven with named | named
            · exact .inr (sunday ▸ named)
            · exact .inl named

/-- **A schedule matches what the documentation says exactly when, if the other fields name
the time, the fields for the day settle it.** -/
theorem matches_documented_iff (ok : ParseCronExpression expr = .ok s) (t : Time) :
    (s.matches t = true ↔ Documented expr t) ↔ (NamesRest expr t → DaysSettled expr t) := by
  rw [matches_names_iff ok, Documented, ← daysSettled_iff]
  constructor
  · intro same rest
    constructor
    · intro named
      exact (same.mp ⟨rest, named⟩).2
    · intro named
      exact (same.mpr ⟨rest, named⟩).2
  · intro same
    exact and_congr_right same

end Accepted

def newYear : Time := ⟨1704099600 * second, 0⟩

def saturday : Time := ⟨1704531600 * second, 0⟩

def weekdaysAtNine : List Char := "0 9 * * 1-5".toList

theorem matches_documented_iff_newYear : ∃ s, ParseCronExpression weekdaysAtNine = .ok s ∧
    ((s.matches newYear = true ↔ Documented weekdaysAtNine newYear) ↔
      (NamesRest weekdaysAtNine newYear → DaysSettled weekdaysAtNine newYear)) :=
  ⟨_, rfl, matches_documented_iff rfl newYear⟩

theorem weekdays_on_saturday : ¬∀ expr s, ParseCronExpression expr = .ok s →
    ∀ t, s.matches t = true ↔ Documented expr t := by
  intro documented
  have named : NamesDay _ _ saturday := ((documented weekdaysAtNine _ rfl saturday).mp (by decide)).2
  have range : parseField (weekdayField weekdaysAtNine) 0 7 = .ok (.range 1 5) := rfl
  have names := parseField_names range (fieldAt_free weekdaysAtNine 5)
  unfold NamesDay at named
  rw [if_pos (by decide)] at named
  rcases named with named | ⟨sunday, -⟩
  · exact absurd ((names _).mpr named) (by decide)
  · exact absurd sunday (by decide)

end Memos.Scheduler
