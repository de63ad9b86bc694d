import FieldRules.Calendar.Fields
import FieldRules.Calendar.Pattern
import FieldRules.Text.Blank

/-!
# Reading by a pattern

A text is read item by item, and what it says is put down part by part.  The
whole text must be used up.

**Results.**
* `scan_cons`: a pattern is read item after item.
-/

namespace FieldRules

/-- What has been read, and the text still to be read. -/
abbrev Reading := Fields × List Char

namespace Quantity

/-- The most digits of a number, if there is a limit. -/
def width : Quantity → Option Nat
  | .year | .weekYear => some 4
  | .quarter | .daysSinceSunday | .weekdayNumber => some 1
  | .ordinal => some 3
  | .nanosecond => some 9
  | .timestamp => none
  | _ => some 2

/-- Whether a number may have a sign, which lifts the limit on its digits. -/
def isSigned : Quantity → Bool
  | .year | .weekYear => true
  | _ => false

/-- Puts down a number that has been read. -/
def store (f : Fields) (v : Int) : Quantity → Option Fields
  | .year => f.putIn (-2147483648) 2147483647 .year v
  | .century => f.putIn 0 99 .century v
  | .yearOfCentury => f.putIn 0 99 .yearOfCentury v
  | .weekYear => f.putIn (-2147483648) 2147483647 .weekYear v
  | .weekYearOfCentury => f.putIn 0 99 .weekYearOfCentury v
  | .quarter => f.putIn 1 4 .quarter v
  | .month => f.putIn 1 12 .month v
  | .day => f.putIn 1 31 .day v
  | .ordinal => f.putIn 1 366 .ordinal v
  | .weekFromSunday => f.putIn 0 53 .weekFromSunday v
  | .weekFromMonday => f.putIn 0 53 .weekFromMonday v
  | .weekOfYear => f.putIn 1 53 .weekOfYear v
  | .daysSinceSunday => if 0 ≤ v ∧ v ≤ 6 then f.put .weekday ((v + 6) % 7) else none
  | .weekdayNumber => if 1 ≤ v ∧ v ≤ 7 then f.put .weekday (v - 1) else none
  | .hour => f.putHour v
  | .hour12 => if 1 ≤ v ∧ v ≤ 12 then f.put .hourOfHalf (v % 12) else none
  | .minute => f.putIn 0 59 .minute v
  | .second => f.putIn 0 60 .second v
  | .nanosecond => f.putIn 0 999999999 .nano v
  | .timestamp => f.putIn 0 9223372036854775807 .timestamp v

/-- Reads the digits of a number, with its sign where it may have one. -/
def readSigned? (q : Quantity) (s : List Char) : Option (Int × List Char) :=
  let unsigned := match q.width with
    | some width => Text.readNumber? width s
    | none => Text.readRun? s
  match q.isSigned, s with
  | true, '-' :: r => (Text.readRun? r).map fun n => (-(n.1 : Int), n.2)
  | true, '+' :: r => (Text.readRun? r).map fun n => ((n.1 : Int), n.2)
  | _, _ => unsigned.map fun n => ((n.1 : Int), n.2)

def scan (q : Quantity) (r : Reading) : Option Reading := do
  let (v, rest) ← q.readSigned? (Text.trimStart r.2)
  let f ← q.store r.1 v
  return (f, rest)

end Quantity

namespace PatternItem

/-- Cuts a name off a text, whatever the case of its ASCII letters. -/
def cutName? : List Char → List Char → Option (List Char)
  | [], s => some s
  | _ :: _, [] => none
  | n :: ns, c :: cs => if c.toLower = n then cutName? ns cs else none

/-- The names of the months, each as its short name and what follows it. -/
def monthNames : List (String × String) :=
  [("jan", "uary"), ("feb", "ruary"), ("mar", "ch"), ("apr", "il"), ("may", ""),
    ("jun", "e"), ("jul", "y"), ("aug", "ust"), ("sep", "tember"), ("oct", "ober"),
    ("nov", "ember"), ("dec", "ember")]

/-- The names of the days of the week, each as its short name and what follows
it. -/
def weekdayNames : List (String × String) :=
  [("mon", "day"), ("tue", "sday"), ("wed", "nesday"), ("thu", "rsday"), ("fri", "day"),
    ("sat", "urday"), ("sun", "day")]

/-- Cuts one of some names off a text and counts the names before it.  Where long
names are allowed, the short one is also read. -/
def readName? (long : Bool) (s : List Char) : List (String × String) → Option (Nat × List Char)
  | [] => none
  | (short, more) :: names =>
      match cutName? short.toList s with
      | some rest =>
          if long then some (0, (cutName? more.toList rest).getD rest) else some (0, rest)
      | none => (readName? long s names).map fun r => (r.1 + 1, r.2)

/-- Cuts a character off a text. -/
def cut? (c : Char) : List Char → Option (List Char)
  | [] => none
  | d :: ds => if d = c then some ds else none

/-- Reads a fraction of a second; digits beyond the ninth are skipped. -/
def readFraction? (s : List Char) : Option (Int × List Char) :=
  match Text.readNumber? 9 s with
  | none => none
  | some (n, _) =>
      let count := (Text.run s).length
      some (n * Text.placeValue (9 - min 9 count), s.drop count)

/-- Reads a fraction of a second with a fixed number of places. -/
def readPlaces? (places : Nat) (s : List Char) : Option (Int × List Char) :=
  (Text.readExactly? places s).map fun r =>
    (r.1 * Text.placeValue (9 - places), r.2)

/-- Skips colons and blanks. -/
def skipColons (s : List Char) : Option (List Char) :=
  some (s.dropWhile fun c => c == ':' || Text.isBlank c)

/-- Reads the offset of a time zone in minutes: a sign, two digits of hours, what
`separator` lets pass, and two digits of minutes.  Where `zulu` is set, a `Z`
stands for no offset; where `bare` is set, the text may end after the hours. -/
def readOffset? (separator : List Char → Option (List Char)) (zulu bare : Bool)
    (s : List Char) : Option (Int × List Char) :=
  let signed (sign : Int) (s : List Char) : Option (Int × List Char) := do
    let (hours, s) ← Text.readExactly? 2 s
    let s ← separator s
    if s.isEmpty then
      if bare then some (sign * (60 * hours), []) else none
    else
      let (minutes, s) ← Text.readExactly? 2 s
      if minutes < 60 then some (sign * (60 * hours + minutes), s) else none
  match s with
  | [] => none
  | c :: cs =>
      if zulu && (c == 'Z' || c == 'z') then some (0, cs)
      else if c = '+' then signed 1 cs
      else if c = '-' ∨ c = '\u2212' then signed (-1) cs
      else none

/-- Reads `AM` or `PM` in any case as the half of the day. -/
def readMeridiem? (s : List Char) : Option (Int × List Char) :=
  ((cutName? ['a', 'm'] s).map fun r => (0, r)).or
    ((cutName? ['p', 'm'] s).map fun r => (1, r))

/-- Puts down a part that has been read. -/
def keep (f : Fields) (part : Part) (r : Int × List Char) : Option Reading :=
  (f.put part r.1).map fun f => (f, r.2)

/-- Cuts off what stands between a date and its time: the letter `T` in any case, or a
blank. -/
def cutTimeMark? (s : List Char) : Option (List Char) :=
  ((cut? 'T' s).or (cut? 't' s)).or (cut? ' ' s)

/-- Reads a zone: `UTC` in any case, or the offset from it. -/
def readZone? (s : List Char) : Option (Int × List Char) :=
  match cutName? ['u', 't', 'c'] s with
  | some rest => some (0, rest)
  | none => readOffset? skipColons true false s

def scan (r : Reading) : PatternItem → Option Reading
  | .literal c => (cut? c r.2).map fun s => (r.1, s)
  | .blank => some (r.1, Text.trimStart r.2)
  | .number q => q.scan r
  | .monthName long =>
      (readName? long r.2 monthNames).bind fun n => keep r.1 .month (n.1 + 1, n.2)
  | .weekdayName long =>
      (readName? long r.2 weekdayNames).bind fun n => keep r.1 .weekday (n.1, n.2)
  | .meridiem => (readMeridiem? r.2).bind (keep r.1 .half)
  | .fraction =>
      match r.2 with
      | '.' :: s => (readFraction? s).bind (keep r.1 .nano)
      | _ => some r
  | .pointFraction places =>
      match r.2 with
      | '.' :: s => (readPlaces? places s).bind (keep r.1 .nano)
      | _ => some r
  | .bareFraction places => (readPlaces? places r.2).bind (keep r.1 .nano)
  | .zoneName => some (r.1, r.2.dropWhile fun c => !Text.isBlank c)
  | .zoneOffset lenient =>
      (readOffset? skipColons lenient lenient (Text.trimStart r.2)).bind (keep r.1 .offset)
  | .timeMark => (cutTimeMark? r.2).map fun s => (r.1, s)
  | .zone => (readZone? r.2).bind (keep r.1 .offset)

end PatternItem

namespace Pattern

/-- Reads the items of a pattern one after the other. -/
def scan (r : Reading) : Pattern → Option Reading
  | [] => some r
  | item :: items => (item.scan r).bind fun r => scan r items

/-- What a text says under a pattern that uses it up. -/
def fields? (p : Pattern) (s : List Char) : Option Fields :=
  match scan (Fields.empty, s) p with
  | some (f, []) => some f
  | _ => none

/-- The date-time that a text denotes under a pattern. -/
def dateTime? (p : Pattern) (s : List Char) : Option DateTime :=
  (p.fields? s).bind fun f => f.dateTime.toOption

/-- The date that a text denotes under a pattern, whatever it says about a time. -/
def date? (p : Pattern) (s : List Char) : Option Date :=
  (p.fields? s).bind fun f => f.date.toOption

theorem scan_cons (r : Reading) (item : PatternItem) (items : Pattern) :
    scan r (item :: items) = (item.scan r).bind fun r => scan r items := rfl

end Pattern
end FieldRules
