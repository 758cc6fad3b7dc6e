/-
Cron schedules.

An expression has five or six fields, the first of six for the seconds.  Each is parsed
into a matcher of its own, and a time is asked for its parts: a schedule matches when all
matchers do, where one of the two for the day is enough.

The next time of a schedule is searched for, second by second or minute by minute, for
four years.  A time is an instant with the offset of its zone, which stays the same.
-/
import Memos.Api.ContentModeration
import Memos.Lib.Calendar

namespace Memos.Scheduler

open Api (isSpace trimSpace fieldsFunc)

/-! ### Times -/

def second : Int := 1000000000

def minute : Int := 60 * second

/-- Nanoseconds since the beginning of 1970, and how many seconds the zone is ahead. -/
structure Time where
  ns : Int
  offset : Int
deriving DecidableEq

/-- `time.Time{}`, the beginning of the year 1. -/
def zeroTime : Time := ⟨-62135596800 * second, 0⟩

namespace Time

variable (t : Time)

/-- The seconds that a clock in the zone has counted since the beginning of 1970. -/
def clock : Int := t.ns / second + t.offset

def Second : Int := t.clock % 60

def Minute : Int := t.clock / 60 % 60

def Hour : Int := t.clock / 3600 % 24

/-- The days since the beginning of the year 1. -/
def dayNumber : Int := t.clock / 86400 + 719162

def date : Calendar.Date := Calendar.date t.dayNumber

def Month : Int := t.date.month

def Day : Int := t.date.day

/-- Sunday is 0; the first day of the year 1 was a Monday. -/
def Weekday : Int := (t.dayNumber + 1) % 7

def Add (d : Int) : Time := ⟨t.ns + d, t.offset⟩

/-- Down to a multiple of `d` since the zero time. -/
def Truncate (d : Int) : Time := ⟨t.ns - (t.ns - zeroTime.ns) % d, t.offset⟩

def Before (u : Time) : Bool := t.ns < u.ns

/-- The same time of the same date, some years later. -/
def AddYears (years : Int) : Time :=
  let day := Calendar.days { t.date with year := t.date.year + years }
  ⟨t.ns + (day - t.dayNumber) * 86400 * second, t.offset⟩

end Time

/-! ### Fields -/

inductive FieldMatcher where
  | wildcard
  | exact (value : Int)
  | range (start stop : Int)
  | list (values : List Int)
  | step (step min max : Int)
deriving DecidableEq

def FieldMatcher.matches : FieldMatcher → Int → Bool
  | .wildcard, _ => true
  | .exact v, value => value = v
  | .range start stop, value => start ≤ value && value ≤ stop
  | .list values, value => values.contains value
  | .step n min max, value => if value < min || max < value then false else (value - min) % n = 0

def isDigit (c : Char) : Bool := '0' ≤ c && c ≤ '9'

def number (digits : List Char) : Option Int :=
  if digits.isEmpty || !digits.all isDigit then none
  else some (digits.foldl (fun n c => n * 10 + (c.toNat - '0'.toNat : Nat)) 0)

def Atoi (s : List Char) : Option Int :=
  let value := match s with
    | '+' :: digits => number digits
    | '-' :: digits => (number digits).map (- ·)
    | digits => number digits
  value.filter fun v => -2 ^ 63 ≤ v && v < 2 ^ 63

def parseList (min max : Int) : List (List Char) → Except String (List Int)
  | [] => .ok []
  | p :: parts =>
      match Atoi (trimSpace p) with
      | none => .error ("invalid list value: " ++ String.ofList p)
      | some val =>
          if val < min || max < val then .error ("invalid list value: " ++ String.ofList p)
          else (parseList min max parts).map (val :: ·)

def parseRange (min max : Int) (field : List Char) : Except String FieldMatcher :=
  let refusal := "invalid range: " ++ String.ofList field
  match field.splitOn '-' with
  | [first, last] =>
      match Atoi (trimSpace first), Atoi (trimSpace last) with
      | some start, some stop =>
          if start < min || max < stop || stop < start then .error refusal
          else .ok (.range start stop)
      | _, _ => .error refusal
  | _ => .error refusal

def parseStep (min max : Int) (field rest : List Char) : Except String FieldMatcher :=
  match Atoi rest with
  | none => .error ("invalid step value: " ++ String.ofList field)
  | some step =>
      if step < 1 || max < step then .error ("invalid step value: " ++ String.ofList field)
      else .ok (.step step min max)

def parseValue (min max : Int) (field : List Char) : Except String FieldMatcher :=
  let refusal := "invalid value: " ++ String.ofList field ++ " (must be between "
    ++ toString min ++ " and " ++ toString max ++ ")"
  match Atoi field with
  | none => .error refusal
  | some val => if val < min || max < val then .error refusal else .ok (.exact val)

def parseField (field : List Char) (min max : Int) : Except String FieldMatcher :=
  if field = ['*'] then .ok .wildcard
  else if field.take 2 = ['*', '/'] then parseStep min max field (field.drop 2)
  else if ',' ∈ field then (parseList min max (field.splitOn ',')).map .list
  else if '-' ∈ field then parseRange min max field
  else parseValue min max field

/-! ### Schedules -/

structure Schedule where
  seconds : FieldMatcher
  minutes : FieldMatcher
  hours : FieldMatcher
  days : FieldMatcher
  months : FieldMatcher
  weekdays : FieldMatcher
  hasSecs : Bool
deriving DecidableEq

def fieldsOf (expr : List Char) : List (List Char) := fieldsFunc isSpace expr

def parseNamed (name : String) (field : List Char) (min max : Int) : Except String FieldMatcher :=
  (parseField field min max).mapError fun err => "invalid " ++ name ++ " field: " ++ err

def parseFields (hasSecs : Bool) (seconds : FieldMatcher) (fields : List (List Char)) :
    Except String Schedule := do
  let minutes ← parseNamed "minutes" (fields.getD 0 []) 0 59
  let hours ← parseNamed "hours" (fields.getD 1 []) 0 23
  let days ← parseNamed "days" (fields.getD 2 []) 1 31
  let months ← parseNamed "months" (fields.getD 3 []) 1 12
  let weekdays ← parseNamed "weekdays" (fields.getD 4 []) 0 7
  return { seconds, minutes, hours, days, months, weekdays, hasSecs }

def ParseCronExpression (expr : List Char) : Except String Schedule :=
  if expr.isEmpty then .error "empty cron expression"
  else
    let fields := fieldsOf expr
    if fields.length ≠ 5 && fields.length ≠ 6 then
      .error ("invalid cron expression: expected 5 or 6 fields, got " ++ toString fields.length)
    else if fields.length = 6 then do
      let seconds ← parseNamed "seconds" (fields.getD 0 []) 0 59
      parseFields true seconds fields.tail
    else parseFields false (.exact 0) fields

def Schedule.matches (s : Schedule) (t : Time) : Bool :=
  s.seconds.matches t.Second && s.minutes.matches t.Minute && s.hours.matches t.Hour
    && s.months.matches t.Month && (s.days.matches t.Day || s.weekdays.matches t.Weekday)

def Schedule.unit (s : Schedule) : Int := if s.hasSecs then second else minute

theorem Schedule.unit_pos (s : Schedule) : 0 < s.unit := by
  unfold Schedule.unit
  split
  · decide
  · decide

def Schedule.search (s : Schedule) (t maxTime : Time) : Time :=
  if t.Before maxTime then if s.matches t then t else Schedule.search s (t.Add s.unit) maxTime
  else zeroTime
termination_by (maxTime.ns - t.ns).toNat
decreasing_by
  rename_i before _
  have later : t.ns < maxTime.ns := of_decide_eq_true before
  have := s.unit_pos
  unfold Time.Add
  dsimp only
  omega

def Schedule.start (s : Schedule) (t : Time) : Time := (t.Add s.unit).Truncate s.unit

def Schedule.Next (s : Schedule) (t : Time) : Time :=
  s.search (s.start t) ((s.start t).AddYears 4)

end Memos.Scheduler

/-
The loop that runs a job.

It reads the clock, asks the schedule for the next time, reads the clock again for how long
that is, and sleeps on a timer.  When the timer fires, the handler is called, and whatever
it returns, the loop goes on; when the job is cancelled or the scheduler stopped, it
returns.  A timer is never early, and one with nothing left to wait fires at once.
-/

namespace Memos.Scheduler

/-- What a job's time zone is taken from: names of zones, and the zones of the scheduler and
of the machine.  A zone is how many seconds it is ahead. -/
structure Zones where
  LoadLocation : String → Option Int
  timezone : Option Int
  machine : Int

structure Job where
  schedule : Schedule
  Timezone : String

/-- A name that does not load leaves the zone of the machine, not the scheduler's. -/
def Zones.offset (z : Zones) (job : Job) : Int :=
  if job.Timezone ≠ "" then (z.LoadLocation job.Timezone).getD z.machine
  else z.timezone.getD z.machine

/-- `time.Until` at a reading of the clock.  A duration that does not fit is the nearest one
that does. -/
def Until (t : Time) (now : Int) : Int := max (-2 ^ 63) (min (2 ^ 63 - 1) (t.ns - now))

inductive Phase where
  | running
  | sleeping (due : Int)
  | returned
deriving DecidableEq

/-- The loop, the last reading of the clock, and when the handler was called, the last call
first. -/
structure Loop where
  phase : Phase
  clock : Int
  calls : List Int
deriving DecidableEq

inductive Action where
  | sleep (now reading : Int)
  | fire (now : Int)
  | stop

def Loop.start (clock : Int) : Loop := ⟨.running, clock, []⟩

def runJobWithSchedule (z : Zones) (job : Job) : Loop → Action → Option Loop
  | ⟨.running, clock, calls⟩, .sleep now reading =>
      if clock ≤ now ∧ now ≤ reading then
        let next := job.schedule.Next ⟨now, z.offset job⟩
        some ⟨.sleeping (reading + max 0 (Until next reading)), reading, calls⟩
      else none
  | ⟨.sleeping due, _, calls⟩, .fire now =>
      if due ≤ now then some ⟨.running, now, now :: calls⟩ else none
  | ⟨.sleeping _, clock, calls⟩, .stop => some ⟨.returned, clock, calls⟩
  | _, _ => none

end Memos.Scheduler
