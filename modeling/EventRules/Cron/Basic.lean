/-
# Cron expressions

A cron expression says at which points of time something happens. For each unit of the calendar it
admits either any value or the values of a finite set, which is kept in ascending order without
repetition.
-/

import EventRules.Text.Numeral

namespace EventRules

/-- What a cron expression admits for one unit of the calendar. -/
inductive CronField
  | any
  | only (values : List Nat)
  deriving DecidableEq, Repr

namespace CronField

/-- Adds a number to a list in ascending order, unless it is there. -/
def insertValue (n : Nat) : List Nat → List Nat
  | [] => [n]
  | m :: rest =>
    if n < m then n :: m :: rest
    else if n = m then m :: rest
    else m :: insertValue n rest

/-- The field that admits the given values, in whatever order and however often they are given. -/
def including (values : List Nat) : CronField :=
  .only (values.foldr insertValue [])

/-- The text of a field: a star, or its values in ascending order with commas between. -/
def text : CronField → Text
  | any => "*"
  | only values => Text.join "," (values.map Text.decimal)

end CronField

/-- What a cron expression admits, unit by unit. -/
structure Cron where
  second : CronField
  minute : CronField
  hour : CronField
  dayOfMonth : CronField
  month : CronField
  dayOfWeek : CronField
  year : CronField := .any
  deriving DecidableEq, Repr

namespace Cron

/-- The fields in the order in which they are written. -/
def fields (c : Cron) : List CronField :=
  [c.second, c.minute, c.hour, c.dayOfMonth, c.month, c.dayOfWeek, c.year]

/-- The text of a cron expression: its seven fields with spaces between. -/
def text (c : Cron) : Text :=
  Text.join " " (c.fields.map CronField.text)

end Cron

end EventRules
