import FieldRules.Calendar.Scan

/-!
# Instants

The form `2023-05-28T14:30:00.5+02:00` of RFC 3339: every part with a fixed number
of digits, an optional fraction, and the offset of the local time from universal
time, or `Z`.  A small letter or a blank may stand for the `T`.
-/

namespace FieldRules
namespace Instant

def readDate? (s : List Char) : Option (Date × List Char) := do
  let (year, s) ← Text.readExactly? 4 s
  let s ← PatternItem.cut? '-' s
  let (month, s) ← Text.readExactly? 2 s
  let s ← PatternItem.cut? '-' s
  let (day, s) ← Text.readExactly? 2 s
  let date ← Date.ofYMD? year month day
  return (date, s)

/-- The fraction of a second, if there is one. -/
def readFraction? : List Char → Option (Nat × List Char)
  | '.' :: s => (PatternItem.readFraction? s).map fun r => (r.1.toNat, r.2)
  | s => some (0, s)

def readTime? (s : List Char) : Option (TimeOfDay × List Char) := do
  let (hour, s) ← Text.readExactly? 2 s
  let s ← PatternItem.cut? ':' s
  let (minute, s) ← Text.readExactly? 2 s
  let s ← PatternItem.cut? ':' s
  let (second, s) ← Text.readExactly? 2 s
  let (nano, s) ← readFraction? s
  let time ← TimeOfDay.ofClock? hour minute second nano
  return (time, s)

/-- The local date-time of an instant and its offset in minutes. -/
def readLocal? (s : List Char) : Option (DateTime × Int) := do
  let (date, s) ← readDate? s
  let s ← ((PatternItem.cut? 'T' s).or (PatternItem.cut? 't' s)).or (PatternItem.cut? ' ' s)
  let (time, s) ← readTime? s
  let (offset, s) ← PatternItem.readOffset? (PatternItem.cut? ':') true false s
  if s.isEmpty ∧ offset.natAbs ≤ 23 * 60 + 59 then some (⟨date, time⟩, offset) else none

/-- The date-time in universal time that a text denotes. -/
def parse? (s : List Char) : Option DateTime :=
  (readLocal? s).bind fun r => r.1.minusMinutes? r.2

end Instant
end FieldRules
