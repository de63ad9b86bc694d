import FieldRules.Text.Digits

/-!
# Times of day

A time of day is a second of the day and a fraction in nanoseconds.  A leap
second has a fraction of one second or more; it can only follow the last second
of a minute, and is written as second 60.

**Results.**
* `clock_lt`: the parts of a time of day lie on the clock.
-/

namespace FieldRules

def nanosPerSecond : Nat := 1000000000

/-- A time of day. -/
structure TimeOfDay where
  second : Nat
  nano : Nat
  second_lt : second < 86400
  nano_lt : nano < 2 * nanosPerSecond
  leap_ends_minute : nanosPerSecond ≤ nano → second % 60 = 59
deriving DecidableEq, Repr

namespace TimeOfDay

def midnight : TimeOfDay :=
  ⟨0, 0, by decide, by decide, by decide⟩

/-- The time with a second of the day and a fraction, if there is one. -/
def ofParts? (second nano : Nat) : Option TimeOfDay :=
  if h : second < 86400 ∧ nano < 2 * nanosPerSecond ∧
      (nanosPerSecond ≤ nano → second % 60 = 59) then
    some ⟨second, nano, h.1, h.2.1, h.2.2⟩
  else none

/-- The time that a clock shows; second 60 is a leap second. -/
def ofClock? (hour minute second nano : Nat) : Option TimeOfDay :=
  if hour < 24 ∧ minute < 60 ∧ second ≤ 60 ∧ nano < nanosPerSecond then
    if second = 60 then ofParts? (hour * 3600 + minute * 60 + 59) (nano + nanosPerSecond)
    else ofParts? (hour * 3600 + minute * 60 + second) nano
  else none

def hour (t : TimeOfDay) : Nat := t.second / 3600

def minute (t : TimeOfDay) : Nat := t.second / 60 % 60

/-- Whether a time lies in a leap second. -/
def isLeap (t : TimeOfDay) : Bool := decide (nanosPerSecond ≤ t.nano)

/-- The second that a clock shows, 60 in a leap second. -/
def clockSecond (t : TimeOfDay) : Nat :=
  t.second % 60 + if t.isLeap then 1 else 0

/-- The fraction of the second that a clock shows, in nanoseconds. -/
def clockNano (t : TimeOfDay) : Nat := t.nano % nanosPerSecond

/-- The order of times. -/
def compare (a b : TimeOfDay) : Ordering :=
  (Ord.compare a.second b.second).then (Ord.compare a.nano b.nano)

/-- A fraction of a second with three, six or nine places, as few as it needs. -/
def fractionText (nano : Nat) : List Char :=
  if nano = 0 then []
  else if nano % 1000000 = 0 then '.' :: Text.padded 3 (nano / 1000000)
  else if nano % 1000 = 0 then '.' :: Text.padded 6 (nano / 1000)
  else '.' :: Text.padded 9 nano

def display (t : TimeOfDay) : List Char :=
  Text.padded 2 t.hour ++ ':' :: Text.padded 2 t.minute ++ ':' ::
    Text.padded 2 t.clockSecond ++ fractionText t.clockNano

/-- The parts of a time lie on the clock. -/
theorem clock_lt (t : TimeOfDay) :
    t.hour < 24 ∧ t.minute < 60 ∧ t.clockSecond ≤ 60 ∧ t.clockNano < nanosPerSecond := by
  have h := t.second_lt
  refine ⟨?_, ?_, ?_, Nat.mod_lt _ (by decide)⟩
  · unfold hour; omega
  · unfold minute; omega
  · unfold clockSecond; split <;> omega

end TimeOfDay
end FieldRules
