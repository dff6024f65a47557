/-
# Notation of cron expressions

A cron expression is written as six fields separated by white space: second, minute, hour, day of
the month, month and day of the week. A seventh field, the year, is accepted and ignored. A field is
a star, for any value, or a list of terms with commas between. A term is a star, a number or a range
of numbers, and may be followed by a slash and a step.

The first thing wrong, from left to right, is reported; in a term the step is looked at first.
-/

import EventRules.Cron.Basic
import EventRules.Text.Blank
import EventRules.Text.Quoted

namespace EventRules

/-- The units of the calendar that a cron expression restricts. -/
inductive CronUnit
  | second
  | minute
  | hour
  | dayOfMonth
  | month
  | dayOfWeek
  deriving DecidableEq, Repr

namespace CronUnit

/-- The name of a unit in messages. -/
def name : CronUnit → Text
  | second => "second"
  | minute => "minute"
  | hour => "hour"
  | dayOfMonth => "day_month"
  | month => "month"
  | dayOfWeek => "day_week"

/-- The least value of a unit. -/
def lowest : CronUnit → Nat
  | second | minute | hour => 0
  | dayOfMonth | month | dayOfWeek => 1

/-- The greatest value of a unit. -/
def highest : CronUnit → Nat
  | second | minute => 59
  | hour => 23
  | dayOfMonth => 31
  | month => 12
  | dayOfWeek => 7

end CronUnit

/-- Why a text is no cron expression. -/
inductive CronError
  | fieldCount (found : Nat)
  | zeroStep (unit : CronUnit)
  | notANumber (unit : CronUnit) (text : Text)
  | outOfRange (unit : CronUnit) (term : Text)
  deriving DecidableEq, Repr

/-- The description of what is wrong with a cron expression. -/
def CronError.message : CronError → Text
  | fieldCount found => "expected 6 or 7 cron fields, found " ++ Text.decimal found
  | zeroStep unit => "cron " ++ unit.name ++ " step must not be zero"
  | notANumber unit text => "invalid cron " ++ unit.name ++ ": " ++ text.quoted
  | outOfRange unit term =>
    "cron " ++ unit.name ++ " out of range " ++ Text.decimal unit.lowest ++ "-" ++
      Text.decimal unit.highest ++ ": " ++ term

namespace CronUnit

/-- Reads a number. -/
def number (unit : CronUnit) (t : Text) : Except CronError Nat :=
  match Text.decimal? t with
  | some n => .ok n
  | none => .error (.notANumber unit t)

/-- Reads the ends of the range that a term without step stands for. -/
def ends (unit : CronUnit) (t : Text) : Except CronError (Nat × Nat) :=
  if t = "*" then .ok (unit.lowest, unit.highest)
  else
    match Text.cut? '-' t with
    | some (start, stop) => do
      let start ← unit.number start
      let stop ← unit.number stop
      return (start, stop)
    | none => do
      let n ← unit.number t
      return (n, n)

/-- Reads a range, which must lie within the values of the unit. -/
def range (unit : CronUnit) (t : Text) : Except CronError (Nat × Nat) := do
  let (start, stop) ← unit.ends t
  if start < unit.lowest ∨ unit.highest < stop ∨ stop < start then
    throw (.outOfRange unit t)
  return (start, stop)

/-- The numbers from `start` to `stop` in steps of `step`. -/
def every (step start stop : Nat) : List Nat :=
  (List.range (stop - start + 1)).filterMap fun i =>
    if i % step = 0 then some (start + i) else none

/-- Reads a term: a range, and the step that may follow it. -/
def term (unit : CronUnit) (t : Text) : Except CronError (List Nat) :=
  match Text.cut? '/' t with
  | some (range, step) => do
    let step ← unit.number step
    if step = 0 then throw (.zeroStep unit)
    let (start, stop) ← unit.range range
    return every step start stop
  | none => do
    let (start, stop) ← unit.range t
    return every 1 start stop

/-- Reads a field. -/
def field (unit : CronUnit) (t : Text) : Except CronError CronField :=
  if t = "*" then .ok .any
  else do
    let terms ← (t.splitWhere (· = ',')).mapM unit.term
    return .including terms.flatten

end CronUnit

/-- Reads the fields of a cron expression. -/
def Cron.ofFields : List Text → Except CronError Cron
  | second :: minute :: hour :: dayOfMonth :: month :: dayOfWeek :: rest => do
    if 1 < rest.length then throw (.fieldCount (6 + rest.length))
    return {
      second := ← CronUnit.second.field second
      minute := ← CronUnit.minute.field minute
      hour := ← CronUnit.hour.field hour
      dayOfMonth := ← CronUnit.dayOfMonth.field dayOfMonth
      month := ← CronUnit.month.field month
      dayOfWeek := ← CronUnit.dayOfWeek.field dayOfWeek }
  | parts => throw (.fieldCount parts.length)

/-- Reads a cron expression. -/
def Cron.read (t : Text) : Except CronError Cron :=
  Cron.ofFields t.words

end EventRules
