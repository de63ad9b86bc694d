import FieldRules.Text.Digits

/-!
# Calendar dates

Dates of the Gregorian calendar, extended without end to both sides of its
introduction but limited to the years from -262143 to 262142.  A date is a year,
a month and a day; besides these it can be named by its place in the year, by
weeks counted in three ways, and by the number of days since the start of year 1.

**Results.**
* `daysInMonth_pos`, `daysInMonth_le`: the length of a month.
* `ofYMD?_eq_some`: the parts of a date name it.
-/

namespace FieldRules

def firstYear : Int := -262143

def lastYear : Int := 262142

def isLeapYear (year : Int) : Bool :=
  decide (year % 4 = 0) && (decide (year % 100 ≠ 0) || decide (year % 400 = 0))

/-- The number of days of a month; there are none outside 1 to 12. -/
def daysInMonth (year : Int) (month : Nat) : Nat :=
  if month = 2 then if isLeapYear year then 29 else 28
  else if month = 4 ∨ month = 6 ∨ month = 9 ∨ month = 11 then 30
  else if 1 ≤ month ∧ month ≤ 12 then 31
  else 0

def daysInYear (year : Int) : Nat :=
  if isLeapYear year then 366 else 365

/-- The number of days of a year before a month. -/
def daysBeforeMonth (year : Int) : Nat → Nat
  | 0 => 0
  | month + 1 => daysBeforeMonth year month + daysInMonth year month

/-- The number of days from the start of year 1 to the start of a year. -/
def daysBeforeYear (year : Int) : Int :=
  let y := year - 1
  365 * y + y / 4 - y / 100 + y / 400

/-- A day of the calendar. -/
structure Date where
  year : Int
  month : Nat
  day : Nat
  year_ge : firstYear ≤ year
  year_le : year ≤ lastYear
  day_pos : 1 ≤ day
  day_le : day ≤ daysInMonth year month
deriving DecidableEq, Repr

namespace Date

/-- The date with a year, a month and a day, if there is one. -/
def ofYMD? (year : Int) (month day : Nat) : Option Date :=
  if h : firstYear ≤ year ∧ year ≤ lastYear ∧ 1 ≤ day ∧ day ≤ daysInMonth year month then
    some ⟨year, month, day, h.1, h.2.1, h.2.2.1, h.2.2.2⟩
  else none

def epoch : Date :=
  ⟨1970, 1, 1, by decide, by decide, by decide, by decide⟩

/-- The place of a date in its year, from 1. -/
def ordinal (d : Date) : Nat :=
  daysBeforeMonth d.year d.month + d.day

/-- The month and day at a place of a year, searched from a month on. -/
def monthAndDay (year : Int) : Nat → Nat → Nat → Nat × Nat
  | 0, month, n => (month, n)
  | fuel + 1, month, n =>
      if n ≤ daysInMonth year month then (month, n)
      else monthAndDay year fuel (month + 1) (n - daysInMonth year month)

def ofOrdinal? (year : Int) (n : Nat) : Option Date :=
  let (month, day) := monthAndDay year 12 1 n
  ofYMD? year month day

/-- The number of a date, counted in days; 0001-01-01 has the number 1. -/
def number (d : Date) : Int :=
  daysBeforeYear d.year + d.ordinal

/-- The date with a number. -/
def ofNumber? (n : Int) : Option Date :=
  let guess := (n - 1) * 400 / 146097 + 1
  let year :=
    if n ≤ daysBeforeYear guess then guess - 1
    else if daysBeforeYear (guess + 1) < n then guess + 1
    else guess
  ofOrdinal? year (n - daysBeforeYear year).toNat

def succ? (d : Date) : Option Date :=
  if d.day < daysInMonth d.year d.month then ofYMD? d.year d.month (d.day + 1)
  else if d.month < 12 then ofYMD? d.year (d.month + 1) 1
  else ofYMD? (d.year + 1) 1 1

def pred? (d : Date) : Option Date :=
  if 1 < d.day then ofYMD? d.year d.month (d.day - 1)
  else if 1 < d.month then ofYMD? d.year (d.month - 1) (daysInMonth d.year (d.month - 1))
  else ofYMD? (d.year - 1) 12 31

/-- The day of the week, with Monday as 0. -/
def weekday (d : Date) : Int :=
  (d.number - 1) % 7

/-- The quarter of the year, from 1. -/
def quarter (d : Date) : Nat :=
  (d.month - 1) / 3 + 1

/-- The number of the week in the year when weeks start on a given day of the
week and days before the first such day belong to week 0. -/
def weekFrom (start : Int) (d : Date) : Int :=
  (d.ordinal - (d.weekday - start) % 7 + 6) / 7

/-- The number of the Monday with which the first week of a week year starts: the
week that holds 4 January. -/
def firstMonday (year : Int) : Int :=
  let n := daysBeforeYear year + 4
  n - (n - 1) % 7

/-- The year to which the Monday week of a date belongs. -/
def weekYear (d : Date) : Int :=
  if d.number < firstMonday d.year then d.year - 1
  else if firstMonday (d.year + 1) ≤ d.number then d.year + 1
  else d.year

/-- The number of the Monday week of a date in its week year, from 1. -/
def weekOfYear (d : Date) : Int :=
  (d.number - firstMonday d.weekYear) / 7 + 1

/-- The date with a week year, a week and a day of the week, if the year has that
week. -/
def ofWeek? (year week weekday : Int) : Option Date :=
  let first := firstMonday year
  if 1 ≤ week ∧ 7 * week ≤ firstMonday (year + 1) - first then
    ofNumber? (first + 7 * (week - 1) + weekday)
  else none

/-- The order of dates. -/
def compare (a b : Date) : Ordering :=
  (Ord.compare a.year b.year).then
    ((Ord.compare a.month b.month).then (Ord.compare a.day b.day))

/-- The text of a year: four digits, and a sign outside the years 0 to 9999. -/
def yearText (year : Int) : List Char :=
  if 0 ≤ year ∧ year ≤ 9999 then Text.padded 4 year.natAbs
  else (if year < 0 then '-' else '+') :: Text.padded 4 year.natAbs

def display (d : Date) : List Char :=
  yearText d.year ++ '-' :: Text.padded 2 d.month ++ '-' :: Text.padded 2 d.day

end Date

/-- Every month has at least 28 days. -/
theorem daysInMonth_pos (year : Int) {month : Nat} (h : 1 ≤ month ∧ month ≤ 12) :
    28 ≤ daysInMonth year month := by
  unfold daysInMonth
  repeat' split
  all_goals omega

theorem daysInMonth_le (year : Int) (month : Nat) : daysInMonth year month ≤ 31 := by
  unfold daysInMonth
  repeat' split
  all_goals omega

namespace Date

/-- The parts of a date name it. -/
theorem ofYMD?_eq_some (d : Date) : ofYMD? d.year d.month d.day = some d := by
  have h : firstYear ≤ d.year ∧ d.year ≤ lastYear ∧ 1 ≤ d.day ∧
      d.day ≤ daysInMonth d.year d.month := ⟨d.year_ge, d.year_le, d.day_pos, d.day_le⟩
  simp [ofYMD?, h]

/-- A month has a day, so its number lies between 1 and 12. -/
theorem month_bounds (d : Date) : 1 ≤ d.month ∧ d.month ≤ 12 := by
  have h := Nat.le_trans d.day_pos d.day_le
  unfold daysInMonth at h
  repeat' split at h
  all_goals omega

end Date
end FieldRules
