/-
The next time of a schedule, and when its job runs.

The search goes over whole seconds or minutes, and finds the first that matches in the four
years it looks at.  When there is none it answers with the zero time, which is right only
if there is none later either.  The loop knows nothing of that answer: it waits until the
zero time, which has passed, and calls the handler at once, again and again.
-/
import Memos.Lib.Grid
import Memos.Scheduler.Runner

namespace Memos.Scheduler

open Runs

/-! ### What the next time should be -/

/-- On a whole second, or on a whole minute when the schedule has no field for the seconds. -/
def Schedule.Whole (s : Schedule) (t : Time) : Prop :=
  t.ns % second = 0 ∧ (s.hasSecs = false → t.Second = 0)

def Schedule.Due (s : Schedule) (t : Time) : Prop := s.Whole t ∧ s.matches t = true

variable {s : Schedule}

/-- The times after `t` at which the schedule is due, on the clock of the same zone. -/
def Schedule.dueAfter (s : Schedule) (t : Time) : Set Int := {n | t.ns < n ∧ s.Due ⟨n, t.offset⟩}

/-- The first time that is due, or the zero time when there is none. -/
def NextRight (s : Schedule) (t : Time) : Prop :=
  (∃ n, IsLeast (s.dueAfter t) n ∧ s.Next t = ⟨n, t.offset⟩) ∨
    s.dueAfter t = ∅ ∧ s.Next t = zeroTime

/-- The schedule is due in the four years from the first whole second or minute on. -/
def DueInFourYears (s : Schedule) (t : Time) : Prop :=
  ∃ first, IsLeast {n | t.ns < n ∧ s.Whole ⟨n, t.offset⟩} first ∧
    ∃ n ∈ s.dueAfter t, n < ((⟨first, t.offset⟩ : Time).AddYears 4).ns

/-! ### The search -/

theorem Schedule.whole_iff {t : Time} (zone : 60 ∣ t.offset) : s.Whole t ↔ s.unit ∣ t.ns := by
  obtain ⟨minutes, zone⟩ := zone
  unfold Schedule.Whole Schedule.unit Time.Second Time.clock minute second
  cases s.hasSecs with
  | true =>
      simp only [if_true, Bool.true_eq_false, false_implies, and_true]
      omega
  | false =>
      simp only [Bool.false_eq_true, if_false, true_implies]
      omega

/-- The zero time is a whole minute. -/
theorem unit_dvd_zero (s : Schedule) : s.unit ∣ zeroTime.ns := by
  unfold Schedule.unit
  split
  · decide
  · decide

theorem Schedule.start_eq (s : Schedule) (t : Time) : s.start t = ⟨Grid.after s.unit t.ns, t.offset⟩ := by
  have same : (t.ns + s.unit - zeroTime.ns) % s.unit = t.ns % s.unit := by
    obtain ⟨k, zero⟩ := unit_dvd_zero s
    have shift : t.ns + s.unit - zeroTime.ns = t.ns + s.unit * (1 - k) := by
      rw [zero, Int.mul_sub, Int.mul_one]
      omega
    rw [shift, Int.add_mul_emod_self_left]
  unfold Schedule.start Time.Add Time.Truncate Grid.after
  dsimp only
  rw [same]

theorem Schedule.search_spec (s : Schedule) (t maxTime : Time) (point : s.unit ∣ t.ns) :
    (∃ n, s.search t maxTime = ⟨n, t.offset⟩ ∧ n < maxTime.ns ∧
      IsLeast {n | t.ns ≤ n ∧ s.unit ∣ n ∧ s.matches ⟨n, t.offset⟩ = true} n) ∨
    s.search t maxTime = zeroTime ∧
      ∀ n, t.ns ≤ n → n < maxTime.ns → s.unit ∣ n → s.matches ⟨n, t.offset⟩ = false := by
  induction t using Schedule.search.induct s maxTime with
  | case1 t before found =>
      left
      rw [Schedule.search, if_pos before, if_pos found]
      exact ⟨t.ns, rfl, of_decide_eq_true before, ⟨⟨le_rfl, point, found⟩, fun n h => h.1⟩⟩
  | case2 t before missed ih =>
      have next : s.unit ∣ (t.Add s.unit).ns := Int.dvd_add point (Int.dvd_refl _)
      have here : s.matches ⟨t.ns, t.offset⟩ = false := Bool.eq_false_iff.mpr missed
      rw [Schedule.search, if_pos before, if_neg missed]
      rcases ih next with ⟨n, found, early, least⟩ | ⟨none, all⟩
      · left
        refine ⟨n, found, early, ⟨?_, least.1.2⟩, ?_⟩
        · have later : t.ns + s.unit ≤ n := least.1.1
          have := s.unit_pos
          omega
        · intro m ⟨low, on, hit⟩
          rcases Grid.eq_or_add_le s.unit_pos point on low with rfl | low
          · rw [here] at hit
            cases hit
          · exact least.2 ⟨low, on, hit⟩
      · right
        refine ⟨none, fun m low early on => ?_⟩
        rcases Grid.eq_or_add_le s.unit_pos point on low with rfl | low
        · exact here
        · exact all m low early on
  | case3 t past =>
      right
      rw [Schedule.search, if_neg past]
      refine ⟨rfl, fun n low early => absurd early ?_⟩
      have late : ¬t.ns < maxTime.ns := fun before => past (decide_eq_true before)
      omega

theorem Time.AddYears_four (t : Time) :
    t.ns + 1459 * 86400 * second ≤ (t.AddYears 4).ns ∧
      (t.AddYears 4).ns ≤ t.ns + 1463 * 86400 * second := by
  have days := Calendar.days_four_years t.dayNumber
  unfold Time.AddYears Time.date second
  dsimp only at days ⊢
  omega

/-! ### The next time -/

variable {t : Time}

theorem isLeast_first (zone : 60 ∣ t.offset) :
    IsLeast {n | t.ns < n ∧ s.Whole ⟨n, t.offset⟩} (Grid.after s.unit t.ns) := by
  have whole : ∀ n, s.Whole ⟨n, t.offset⟩ ↔ s.unit ∣ n := fun n => Schedule.whole_iff zone
  simp only [whole]
  exact Grid.isLeast_after s.unit_pos t.ns

theorem dueInFourYears_iff (zone : 60 ∣ t.offset) :
    DueInFourYears s t ↔ ∃ n ∈ s.dueAfter t, n < ((s.start t).AddYears 4).ns := by
  rw [s.start_eq]
  constructor
  · rintro ⟨first, least, due⟩
    rw [← least.unique (isLeast_first zone)]
    exact due
  · intro due
    exact ⟨_, isLeast_first zone, due⟩

/-- The times due are the points of the grid, from the start of the search on, that match. -/
theorem dueAfter_eq (zone : 60 ∣ t.offset) :
    s.dueAfter t = {n | (s.start t).ns ≤ n ∧ s.unit ∣ n ∧ s.matches ⟨n, t.offset⟩ = true} := by
  ext n
  have whole : s.Whole ⟨n, t.offset⟩ ↔ s.unit ∣ n := Schedule.whole_iff zone
  rw [s.start_eq]
  constructor
  · rintro ⟨later, on, hit⟩
    exact ⟨Grid.after_le s.unit_pos later (whole.mp on), whole.mp on, hit⟩
  · rintro ⟨later, on, hit⟩
    exact ⟨lt_of_lt_of_le (Grid.lt_after s.unit_pos t.ns) later, whole.mpr on, hit⟩

/-- The next time is the first one due, if one is due in the four years, and the zero time
otherwise. -/
theorem Next_spec (zone : 60 ∣ t.offset) :
    (∃ n, s.Next t = ⟨n, t.offset⟩ ∧ n < ((s.start t).AddYears 4).ns ∧ IsLeast (s.dueAfter t) n) ∨
      s.Next t = zeroTime ∧ ¬DueInFourYears s t := by
  have point : s.unit ∣ (s.start t).ns := by
    rw [s.start_eq]
    exact Grid.dvd_after s.unit t.ns
  have offset : (s.start t).offset = t.offset := by
    rw [s.start_eq]
  rw [dueInFourYears_iff zone, dueAfter_eq zone, Schedule.Next]
  rcases s.search_spec (s.start t) ((s.start t).AddYears 4) point with found | ⟨none, all⟩
  · rw [offset] at found
    exact .inl found
  · right
    refine ⟨none, ?_⟩
    rintro ⟨n, ⟨low, on, hit⟩, early⟩
    rw [← offset, all n low early on] at hit
    cases hit

/-! The answer for no time is a time too, the first of January of the year 1, a Monday.  A
schedule that is due then was due in the January before, so the search never ends there with
nothing found. -/

def yearBefore : Time := ⟨zeroTime.ns - 366 * 86400 * second, 0⟩

/-- The first Monday of it. -/
def mondayBefore : Time := ⟨zeroTime.ns - 364 * 86400 * second, 0⟩

theorem matches_yearBefore (hit : s.matches zeroTime = true) :
    s.matches yearBefore = true ∨ s.matches mondayBefore = true := by
  have year : yearBefore.Second = zeroTime.Second ∧ yearBefore.Minute = zeroTime.Minute ∧
      yearBefore.Hour = zeroTime.Hour ∧ yearBefore.Month = zeroTime.Month ∧
      yearBefore.Day = zeroTime.Day := by decide
  have monday : mondayBefore.Second = zeroTime.Second ∧ mondayBefore.Minute = zeroTime.Minute ∧
      mondayBefore.Hour = zeroTime.Hour ∧ mondayBefore.Month = zeroTime.Month ∧
      mondayBefore.Weekday = zeroTime.Weekday := by decide
  unfold Schedule.matches at hit ⊢
  rw [year.1, year.2.1, year.2.2.1, year.2.2.2.1, year.2.2.2.2, monday.1, monday.2.1, monday.2.2.1,
    monday.2.2.2.1, monday.2.2.2.2]
  rw [Bool.and_eq_true, Bool.or_eq_true] at hit
  obtain ⟨rest, day | weekday⟩ := hit
  · left
    rw [rest, day]
    rfl
  · right
    rw [rest, weekday, Bool.or_true]
    rfl

theorem due_yearBefore (due : s.Due zeroTime) : s.Due yearBefore ∨ s.Due mondayBefore := by
  have whole : s.Whole yearBefore ∧ s.Whole mondayBefore :=
    ⟨⟨by decide, fun _ => by decide⟩, ⟨by decide, fun _ => by decide⟩⟩
  exact (matches_yearBefore due.2).imp (And.intro whole.1) (And.intro whole.2)

theorem zeroTime_early (zone : t.offset = 0) (least : IsLeast (s.dueAfter t) zeroTime.ns) :
    zeroTime.ns < ((s.start t).AddYears 4).ns := by
  by_contra late
  have years := (s.start t).AddYears_four
  have start : t.ns < (s.start t).ns := by
    rw [s.start_eq]
    exact Grid.lt_after s.unit_pos t.ns
  have due : s.Due ⟨zeroTime.ns, t.offset⟩ := least.1.2
  have bound : ∀ n, s.Due ⟨n, 0⟩ → t.ns < n → zeroTime.ns ≤ n := by
    intro n hn later
    exact least.2 ⟨later, by rw [zone]; exact hn⟩
  rw [zone] at due
  have second_eq : second = 1000000000 := rfl
  rcases due_yearBefore due with due | due
  · have := bound yearBefore.ns due
    unfold yearBefore at this
    dsimp only at this
    omega
  · have := bound mondayBefore.ns due
    unfold mondayBefore at this
    dsimp only at this
    omega

/-- The next time is right when the schedule is due in the four years, or never again. -/
theorem nextRight_iff (zone : 60 ∣ t.offset) :
    NextRight s t ↔ DueInFourYears s t ∨ s.dueAfter t = ∅ := by
  rcases Next_spec (s := s) zone with ⟨n, found, early, least⟩ | ⟨none, not_due⟩
  · exact iff_of_true (.inl ⟨n, least, found⟩)
      (.inl ((dueInFourYears_iff zone).mpr ⟨n, least.1, early⟩))
  · constructor
    · rintro (⟨n, least, found⟩ | ⟨never, -⟩)
      · left
        rw [none] at found
        obtain ⟨rfl, zero⟩ := Time.mk.injEq _ _ _ _ ▸ found
        exact (dueInFourYears_iff zone).mpr ⟨_, least.1, zeroTime_early zero.symm least⟩
      · exact .inr never
    · rintro (due | never)
      · exact absurd due not_due
      · exact .inr ⟨never, none⟩

/-! ### When the handler is called -/

/-- Between the call before and this one the schedule was due. -/
def DueBetween (s : Schedule) (offset call earlier : Int) : Prop :=
  ∃ n ∈ s.dueAfter ⟨earlier, offset⟩, n ≤ call

/-- The calls of a loop that was started, the last one first: each is at or after a time due
later than the call before, and a schedule that is never due is never run. -/
structure OnTime (s : Schedule) (offset started : Int) (calls : List Int) : Prop where
  due : List.IsChain (DueBetween s offset) (calls ++ [started])
  never : s.dueAfter ⟨started, offset⟩ = ∅ → calls = []

/-- What holds of the loop: the calls so far, and when it sleeps, it does so until a time due
since the last one. -/
structure Timely (s : Schedule) (offset started : Int) (l : Loop) : Prop where
  calls : OnTime s offset started l.calls
  started_le : started ≤ l.clock
  latest_le : l.calls.headD started ≤ l.clock
  sleeps : ∀ due, l.phase = .sleeping due →
    l.clock ≤ due ∧ DueBetween s offset due (l.calls.headD started)

variable {offset started : Int} {calls : List Int}

theorem DueBetween.mono {call later earlier latest : Int} (h : DueBetween s offset call latest)
    (le : call ≤ later) (before : earlier ≤ latest) : DueBetween s offset later earlier := by
  obtain ⟨n, ⟨after, due⟩, early⟩ := h
  exact ⟨n, ⟨lt_of_le_of_lt before after, due⟩, early.trans le⟩

theorem OnTime.cons (h : OnTime s offset started calls) {call : Int}
    (due : DueBetween s offset call (calls.headD started)) :
    OnTime s offset started (call :: calls) := by
  constructor
  · cases calls with
    | nil => exact .cons_cons due h.due
    | cons c calls => exact .cons_cons due h.due
  · intro never
    rw [h.never never] at due
    obtain ⟨n, later, -⟩ := due
    rw [List.headD_nil, never] at later
    exact absurd later (Set.notMem_empty n)

theorem Timely.start : Timely s offset started (Loop.start started) where
  calls := ⟨.singleton started, fun _ => rfl⟩
  started_le := le_rfl
  latest_le := le_rfl
  sleeps _ sleeping := nomatch sleeping

/-- A duration of less than three centuries fits. -/
theorem le_add_Until {n reading : Int} (fits : n ≤ reading + (2 ^ 63 - 1)) :
    n ≤ reading + max 0 (Until ⟨n, offset⟩ reading) := by
  unfold Until
  dsimp only
  omega

/-- The loop sleeps until a time due later than the reading of the clock it asked with. -/
theorem Next_dueBetween (zone : 60 ∣ offset) {now reading : Int} (le : now ≤ reading)
    (due : DueInFourYears s ⟨now, offset⟩) :
    DueBetween s offset (reading + max 0 (Until (s.Next ⟨now, offset⟩) reading)) now := by
  rcases Next_spec (s := s) (t := ⟨now, offset⟩) zone with ⟨n, found, early, least⟩ | ⟨-, not_due⟩
  · refine ⟨n, least.1, ?_⟩
    rw [found]
    have start : (s.start ⟨now, offset⟩).ns ≤ now + s.unit := by
      rw [s.start_eq]
      exact Grid.after_le_add s.unit_pos now
    have unit : s.unit ≤ minute := by
      unfold Schedule.unit
      split
      · decide
      · exact le_rfl
    have years := ((s.start ⟨now, offset⟩).AddYears_four).2
    unfold minute second at *
    exact le_add_Until (by omega)
  · exact absurd due not_due

variable {z : Zones} {job : Job} {l l' : Loop} {a : Action}

/-- The reading of the clock that the schedule is asked with is one after which it is due in
four years. -/
def Action.Ready (s : Schedule) (offset : Int) : Action → Prop
  | .sleep now _ => DueInFourYears s ⟨now, offset⟩
  | _ => True

theorem runJobWithSchedule_cases (h : runJobWithSchedule z job l a = some l') :
    (∃ now reading, a = .sleep now reading ∧ l.clock ≤ now ∧ now ≤ reading ∧
      l' = ⟨.sleeping (reading + max 0 (Until (job.schedule.Next ⟨now, z.offset job⟩) reading)),
        reading, l.calls⟩) ∨
    (∃ due now, l.phase = .sleeping due ∧ a = .fire now ∧ due ≤ now ∧
      l' = ⟨.running, now, now :: l.calls⟩) ∨
    a = .stop ∧ l' = ⟨.returned, l.clock, l.calls⟩ := by
  unfold runJobWithSchedule at h
  split at h
  · rename_i clock calls now reading
    split at h
    · rename_i order
      exact .inl ⟨now, reading, rfl, order.1, order.2, (Option.some.inj h).symm⟩
    · cases h
  · rename_i due clock calls now
    split at h
    · rename_i fired
      exact .inr (.inl ⟨due, now, rfl, rfl, fired, (Option.some.inj h).symm⟩)
    · cases h
  · exact .inr (.inr ⟨rfl, (Option.some.inj h).symm⟩)
  · cases h

theorem Timely.step (zone : 60 ∣ z.offset job)
    (h : Timely job.schedule (z.offset job) started l) (ready : a.Ready job.schedule (z.offset job))
    (next : runJobWithSchedule z job l a = some l') :
    Timely job.schedule (z.offset job) started l' := by
  rcases runJobWithSchedule_cases next with ⟨now, reading, rfl, clock, read, rfl⟩ |
    ⟨due, now, sleeping, rfl, fired, rfl⟩ | ⟨rfl, rfl⟩
  · have started_le := h.started_le
    have latest_le := h.latest_le
    refine ⟨h.calls, by dsimp only; omega, by dsimp only; omega, fun due sleeping => ?_⟩
    obtain rfl := Phase.sleeping.inj sleeping
    constructor
    · dsimp only
      omega
    · exact (Next_dueBetween zone read ready).mono le_rfl (latest_le.trans clock)
  · obtain ⟨clock, due⟩ := h.sleeps due sleeping
    have started_le := h.started_le
    refine ⟨h.calls.cons (due.mono fired le_rfl), by dsimp only; omega, le_rfl, ?_⟩
    exact fun _ sleeping => nomatch sleeping
  · exact ⟨h.calls, h.started_le, h.latest_le, fun _ sleeping => nomatch sleeping⟩

/-- With nothing due in four years the handler is called at once, and the loop is back where
it was. -/
theorem run_at_once (z : Zones) (job : Job) (calls : List Int) {clock now : Int}
    (passed : zeroTime.ns ≤ now) (le : clock ≤ now)
    (none : job.schedule.Next ⟨now, z.offset job⟩ = zeroTime) :
    Run (runJobWithSchedule z job) (fun _ _ => True) ⟨.running, clock, calls⟩
      ⟨.running, now, now :: calls⟩ := by
  have nothing : now + max 0 (Until zeroTime now) = now := by
    unfold Until
    omega
  have sleeps : runJobWithSchedule z job ⟨.running, clock, calls⟩ (.sleep now now) =
      some ⟨.sleeping now, now, calls⟩ := by
    unfold runJobWithSchedule
    dsimp only
    rw [if_pos ⟨le, le_rfl⟩, none, nothing]
  have fires : runJobWithSchedule z job ⟨.sleeping now, now, calls⟩ (.fire now) =
      some ⟨.running, now, now :: calls⟩ := if_pos le_rfl
  exact (Run.refl.tail _ trivial sleeps).tail _ trivial fires

/-- No two calls at one time are both on time. -/
theorem OnTime.not_twice {now : Int} (h : OnTime s offset started (now :: now :: calls)) : False := by
  obtain ⟨n, ⟨later, -⟩, early⟩ := (List.isChain_cons_cons.mp h.due).1
  dsimp only at later
  omega

/-- Every call is on time in a run that asks the schedule only when it is due in the next four
years. -/
theorem onTime_of_ready (zone : 60 ∣ z.offset job)
    (run : Run (runJobWithSchedule z job) (fun _ a => a.Ready job.schedule (z.offset job))
      (Loop.start started) l) : OnTime job.schedule (z.offset job) started l.calls :=
  (run.invariant (P := Timely job.schedule (z.offset job) started) Timely.start
    fun _ _ _ h ready next => h.step zone ready next).calls

theorem onTime_iff (zone : 60 ∣ z.offset job) (passed : zeroTime.ns ≤ started) :
    (∀ l, Run (runJobWithSchedule z job) (fun _ _ => True) (Loop.start started) l →
      OnTime job.schedule (z.offset job) started l.calls) ↔
    ∀ now, started ≤ now → DueInFourYears job.schedule ⟨now, z.offset job⟩ := by
  constructor
  · intro all now later
    by_contra not_due
    rcases Next_spec (s := job.schedule) (t := ⟨now, z.offset job⟩) zone with
      ⟨n, -, early, least⟩ | ⟨none, -⟩
    · exact not_due ((dueInFourYears_iff zone).mpr ⟨n, least.1, early⟩)
    · have once := run_at_once z job [] (passed.trans later) later none
      have twice := run_at_once z job [now] (passed.trans later) le_rfl none
      exact (all _ (once.trans twice)).not_twice
  · intro due l run
    refine (run.invariant (P := Timely job.schedule (z.offset job) started) Timely.start ?_).calls
    intro l l' a h _ next
    refine h.step zone ?_ next
    cases a with
    | sleep now reading =>
        rcases runJobWithSchedule_cases next with ⟨_, _, same, clock, -⟩ | ⟨_, _, -, same, -⟩ | ⟨same, -⟩
        · injection same with same
          exact due now (h.started_le.trans (same ▸ clock))
        · cases same
        · cases same
    | fire now => trivial
    | stop => trivial

/-- **The next time of a schedule is right exactly when the schedule is due in the four years
or never again, and the calls are on time in every run that asks for the next time only when
it is due in the four years; in all runs they are exactly when it always is.** -/
theorem next_and_calls_right_iff (z : Zones) (job : Job) (zone : 60 ∣ z.offset job) :
    (∀ t : Time, t.offset = z.offset job →
      (NextRight job.schedule t ↔ DueInFourYears job.schedule t ∨ job.schedule.dueAfter t = ∅)) ∧
    (∀ started l, Run (runJobWithSchedule z job)
        (fun _ a => a.Ready job.schedule (z.offset job)) (Loop.start started) l →
      OnTime job.schedule (z.offset job) started l.calls) ∧
    ∀ started, zeroTime.ns ≤ started →
      ((∀ l, Run (runJobWithSchedule z job) (fun _ _ => True) (Loop.start started) l →
        OnTime job.schedule (z.offset job) started l.calls) ↔
      ∀ now, started ≤ now → DueInFourYears job.schedule ⟨now, z.offset job⟩) := by
  refine ⟨fun t same => ?_, fun started l run => onTime_of_ready zone run,
    fun started passed => onTime_iff zone passed⟩
  rw [← same] at zone
  exact nextRight_iff zone

def universal : Zones := ⟨fun _ => none, none, 0⟩

def everyMinute : Schedule := ⟨.exact 0, .wildcard, .wildcard, .wildcard, .wildcard, .wildcard, false⟩

theorem next_and_calls_right_iff_everyMinute :
    ParseCronExpression "* * * * *".toList = .ok everyMinute ∧ NextRight everyMinute ⟨0, 0⟩ := by
  refine ⟨rfl, ((next_and_calls_right_iff universal ⟨everyMinute, ""⟩ (by decide)).1 ⟨0, 0⟩ rfl).mpr
    (.inl ?_)⟩
  rw [dueInFourYears_iff (by decide)]
  exact ⟨minute, ⟨by decide, ⟨by decide, fun _ => by decide⟩, by decide⟩, by decide⟩

/-- The 31st of February, or a Sunday by the number that the schedule never asks for. -/
def thirtyFirst : Schedule := ⟨.exact 0, .exact 0, .exact 0, .exact 31, .exact 2, .exact 7, false⟩

theorem thirtyFirst_never (t : Time) : thirtyFirst.matches t = false := by
  rw [Bool.eq_false_iff]
  intro hit
  simp only [Schedule.matches, thirtyFirst, FieldMatcher.matches, Bool.and_eq_true, Bool.or_eq_true,
    decide_eq_true_eq] at hit
  obtain ⟨⟨-, february⟩, day | sunday⟩ := hit
  · have short := (Calendar.date_spec t.dayNumber).2.2.2.2.2 february
    have day : (Calendar.date t.dayNumber).day = 31 := day
    omega
  · unfold Time.Weekday at sunday
    omega

theorem thirtyFirst_called : ¬∀ expr s, ParseCronExpression expr = .ok s →
    ∀ z Timezone, 60 ∣ z.offset ⟨s, Timezone⟩ →
      (∀ t : Time, t.offset = z.offset ⟨s, Timezone⟩ → NextRight s t) ∧
      ∀ started l, Run (runJobWithSchedule z ⟨s, Timezone⟩) (fun _ _ => True) (Loop.start started) l →
        OnTime s (z.offset ⟨s, Timezone⟩) started l.calls := by
  intro right
  have never : ∀ t, thirtyFirst.dueAfter t = ∅ := by
    intro t
    ext n
    refine ⟨fun h => ?_, fun h => absurd h (Set.notMem_empty n)⟩
    have hit := h.2.2
    rw [thirtyFirst_never] at hit
    cases hit
  have none : thirtyFirst.Next ⟨0, 0⟩ = zeroTime := by
    rcases Next_spec (s := thirtyFirst) (t := ⟨0, 0⟩) (by decide) with ⟨n, -, -, least⟩ | ⟨none, -⟩
    · exact absurd least.1 (never ⟨0, 0⟩ ▸ Set.notMem_empty n)
    · exact none
  have zero_le : zeroTime.ns ≤ 0 := by decide
  have run := run_at_once universal ⟨thirtyFirst, ""⟩ [] zero_le le_rfl none
  have onTime := (right "0 0 31 2 7".toList thirtyFirst rfl universal "" (by decide)).2 0 _ run
  exact absurd (onTime.never (never _)) (List.cons_ne_nil 0 [])

end Memos.Scheduler
