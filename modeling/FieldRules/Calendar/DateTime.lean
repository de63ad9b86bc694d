import FieldRules.Calendar.Date
import FieldRules.Calendar.TimeOfDay

/-!
# Dates with a time of day

A date and a wall-clock time, without a time zone.
-/

namespace FieldRules

/-- A date and a time of day. -/
structure DateTime where
  date : Date
  time : TimeOfDay
deriving DecidableEq, Repr

namespace DateTime

def ofDate (date : Date) : DateTime := ⟨date, TimeOfDay.midnight⟩

def epoch : DateTime := ofDate Date.epoch

/-- The order of date-times. -/
def compare (a b : DateTime) : Ordering :=
  (a.date.compare b.date).then (a.time.compare b.time)

/-- Seconds since the epoch; a leap second counts as the second before it. -/
def timestamp (t : DateTime) : Int :=
  (t.date.number - Date.epoch.number) * 86400 + t.time.second

/-- The date-time at a number of seconds since the epoch. -/
def ofTimestamp? (seconds : Int) : Option DateTime := do
  let date ← Date.ofNumber? (seconds / 86400 + Date.epoch.number)
  let time ← TimeOfDay.ofParts? (seconds % 86400).toNat 0
  return ⟨date, time⟩

/-- The date-time a number of minutes earlier, by less than a day. -/
def minusMinutes? (t : DateTime) (minutes : Int) : Option DateTime := do
  let seconds := (t.time.second : Int) - 60 * minutes
  let time ← TimeOfDay.ofParts? (seconds % 86400).toNat t.time.nano
  let date ←
    if seconds < 0 then t.date.pred?
    else if 86400 ≤ seconds then t.date.succ?
    else some t.date
  return ⟨date, time⟩

def display (t : DateTime) : List Char :=
  t.date.display ++ ' ' :: t.time.display

def inspect (t : DateTime) : List Char :=
  t.date.display ++ 'T' :: t.time.display

end DateTime
end FieldRules
