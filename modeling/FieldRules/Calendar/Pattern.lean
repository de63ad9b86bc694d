import FieldRules.Text.Blank

/-!
# Date patterns

A pattern says how a date or a time is written.  It is a text in which a percent
sign introduces a specifier; blanks stand for any number of blanks, and all other
characters for themselves.
-/

namespace FieldRules

/-- A number that a pattern asks for. -/
inductive Quantity
  | year
  | century
  | yearOfCentury
  | weekYear
  | weekYearOfCentury
  | quarter
  | month
  | day
  | ordinal
  | weekFromSunday
  | weekFromMonday
  | weekOfYear
  | daysSinceSunday
  | weekdayNumber
  | hour
  | hour12
  | minute
  | second
  | nanosecond
  | timestamp
deriving DecidableEq, Repr

/-- An item of a pattern. -/
inductive PatternItem
  | literal (c : Char)
  | blank
  | number (quantity : Quantity)
  | monthName (long : Bool)
  | weekdayName (long : Bool)
  | meridiem
  | fraction
  | pointFraction (places : Nat)
  | bareFraction (places : Nat)
  | zoneName
  | zoneOffset (lenient : Bool)
  | timeMark
  | zone
deriving DecidableEq, Repr

/-- A pattern, as the list of its items. -/
abbrev Pattern := List PatternItem

namespace Pattern

/-- Hours, minutes and seconds. -/
def clock (hours : Quantity) : Pattern :=
  [.number hours, .literal ':', .number .minute, .literal ':', .number .second]

/-- A date, a time and a zone, with any blanks around the marks between their numbers. -/
def instant : Pattern :=
  [.number .year, .blank, .literal '-', .number .month, .blank, .literal '-', .number .day,
    .timeMark, .number .hour, .blank, .literal ':', .number .minute, .blank, .literal ':',
    .number .second, .fraction, .blank, .zone]

/-- The items of a specifier of one letter. -/
def specifier? : Char → Option Pattern
  | 'A' => some [.weekdayName true]
  | 'B' => some [.monthName true]
  | 'C' => some [.number .century]
  | 'D' | 'x' =>
      some [.number .month, .literal '/', .number .day, .literal '/', .number .yearOfCentury]
  | 'F' => some [.number .year, .literal '-', .number .month, .literal '-', .number .day]
  | 'G' => some [.number .weekYear]
  | 'H' | 'k' => some [.number .hour]
  | 'I' | 'l' => some [.number .hour12]
  | 'M' => some [.number .minute]
  | 'P' | 'p' => some [.meridiem]
  | 'R' => some [.number .hour, .literal ':', .number .minute]
  | 'S' => some [.number .second]
  | 'T' | 'X' => some (clock .hour)
  | 'U' => some [.number .weekFromSunday]
  | 'V' => some [.number .weekOfYear]
  | 'W' => some [.number .weekFromMonday]
  | 'Y' => some [.number .year]
  | 'Z' => some [.zoneName]
  | 'a' => some [.weekdayName false]
  | 'b' | 'h' => some [.monthName false]
  | 'c' =>
      some ([.weekdayName false, .blank, .monthName false, .blank, .number .day, .blank] ++
        clock .hour ++ [.blank, .number .year])
  | 'd' | 'e' => some [.number .day]
  | 'f' => some [.number .nanosecond]
  | 'g' => some [.number .weekYearOfCentury]
  | 'j' => some [.number .ordinal]
  | 'm' => some [.number .month]
  | 'n' | 't' => some [.blank]
  | 'q' => some [.number .quarter]
  | 'r' => some (clock .hour12 ++ [.blank, .meridiem])
  | 's' => some [.number .timestamp]
  | 'u' => some [.number .weekdayNumber]
  | 'v' =>
      some [.number .day, .literal '-', .monthName false, .literal '-', .number .year]
  | 'w' => some [.number .daysSinceSunday]
  | 'y' => some [.number .yearOfCentury]
  | 'z' => some [.zoneOffset false]
  | '+' => some instant
  | '%' => some [.literal '%']
  | _ => none

/-- The items of a specifier with a padding flag, which only a single number may
have.  How a number is padded makes no difference to reading it. -/
def padded? (c : Char) : Option Pattern :=
  match specifier? c with
  | some [.number quantity] => some [.number quantity]
  | _ => none

/-- The number of places that a fraction specifier may fix. -/
def places? : Char → Option Nat
  | '3' => some 3
  | '6' => some 6
  | '9' => some 9
  | _ => none

/-- Where the reading of a pattern text stands: outside of a specifier, or behind
some of its characters. -/
inductive Position
  | outside
  | percent
  | padding
  | lenient
  | point
  | places (point : Bool) (count : Nat)
  | colons (count : Nat)
deriving DecidableEq, Repr

/-- Reads the pattern behind a position; an unknown or unfinished specifier makes
the whole text no pattern. -/
def read : Position → List Char → Option Pattern
  | .outside, [] => some []
  | _, [] => none
  | .outside, c :: cs =>
      if c = '%' then read .percent cs
      else (read .outside cs).map
        ((if Text.isBlank c then PatternItem.blank else PatternItem.literal c) :: ·)
  | .percent, c :: cs =>
      if c = '-' ∨ c = '0' ∨ c = '_' then read .padding cs
      else if c = '#' then read .lenient cs
      else if c = '.' then read .point cs
      else if c = ':' then read (.colons 1) cs
      else match places? c with
        | some count => read (.places false count) cs
        | none => (specifier? c).bind fun items => (read .outside cs).map (items ++ ·)
  | .padding, c :: cs => (padded? c).bind fun items => (read .outside cs).map (items ++ ·)
  | .lenient, c :: cs =>
      if c = 'z' then (read .outside cs).map (PatternItem.zoneOffset true :: ·) else none
  | .point, c :: cs =>
      if c = 'f' then (read .outside cs).map (PatternItem.fraction :: ·)
      else (places? c).bind fun count => read (.places true count) cs
  | .places point count, c :: cs =>
      if c = 'f' then
        (read .outside cs).map
          ((if point then PatternItem.pointFraction count
            else PatternItem.bareFraction count) :: ·)
      else none
  | .colons count, c :: cs =>
      if c = 'z' then (read .outside cs).map (PatternItem.zoneOffset false :: ·)
      else if c = ':' ∧ count < 3 then read (.colons (count + 1)) cs
      else none

/-- The pattern that a text denotes, if it is one. -/
def ofText? (text : String) : Option Pattern :=
  read .outside text.toList

end Pattern
end FieldRules
