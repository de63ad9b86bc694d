import FieldRules.Calendar.DateTime

/-!
# Parts of a date-time

What a text says about a date and a time, part by part, and the date, time or
date-time that the parts determine.  A part may be said twice, but only with the
same number; parts beyond those needed must agree with the result.

**Results.**
* `put_self`, `put_of_ne`: what is known after a part has been put down.
-/

namespace FieldRules

/-- A part of a date-time.  Days of the week count from Monday as 0; the hour is
split into the half of the day and the hour of that half. -/
inductive Part
  | year
  | century
  | yearOfCentury
  | weekYear
  | weekYearOfCentury
  | quarter
  | month
  | day
  | ordinal
  | weekFromSunday
  | weekFromMonday
  | weekOfYear
  | weekday
  | half
  | hourOfHalf
  | minute
  | second
  | nano
  | timestamp
  | offset
deriving DecidableEq, Repr

/-- The parts that are known. -/
abbrev Fields := Part → Option Int

/-- Why parts do not determine a result: too few of them, or no date or time that
has them all. -/
inductive Gap
  | missing
  | contradiction
deriving DecidableEq, Repr

namespace Fields

def empty : Fields := fun _ => none

/-- Puts down a part, unless something else is known for it. -/
def put (f : Fields) (part : Part) (v : Int) : Option Fields :=
  match f part with
  | none => some fun q => if q = part then some v else f q
  | some w => if w = v then some f else none

/-- Puts down a part that must lie in a range. -/
def putIn (low high : Int) (f : Fields) (part : Part) (v : Int) : Option Fields :=
  if low ≤ v ∧ v ≤ high then f.put part v else none

def putHour (f : Fields) (v : Int) : Option Fields := do
  if 0 ≤ v ∧ v ≤ 23 then
    let f ← f.put .half (v / 12)
    f.put .hourOfHalf (v % 12)
  else none

/-- Whether a part is unknown or has a given number. -/
def agrees (f : Fields) (part : Part) (v : Int) : Bool :=
  f part == none || f part == some v

/-- Whether a part of a year is unknown or has a given number; a year before
year 0 has no such parts. -/
def agreesOnYear (f : Fields) (part : Part) (year v : Int) : Bool :=
  if 0 ≤ year then f.agrees part v else f part == none

/-- A year from the whole year, its century and its year of the century.  Two
digits alone stand for the years 1970 to 2069. -/
def resolveYear : Option Int → Option Int → Option Int → Except Gap (Option Int)
  | year, none, none => .ok year
  | some y, century, rest =>
      if 0 ≤ y ∧ century.getD (y / 100) = y / 100 ∧ rest.getD (y % 100) = y % 100 then
        .ok (some y)
      else .error .contradiction
  | none, some century, some rest => .ok (some (century * 100 + rest))
  | none, none, some rest => .ok (some (rest + if rest < 70 then 2000 else 1900))
  | none, some _, none => .error .missing

/-- Whether year, month and day of a date agree with the parts. -/
def agreesOnDay (f : Fields) (d : Date) : Bool :=
  f.agrees .year d.year &&
  f.agreesOnYear .century d.year (d.year / 100) &&
  f.agreesOnYear .yearOfCentury d.year (d.year % 100) &&
  f.agrees .month d.month &&
  f.agrees .day d.day

/-- Whether the Monday week of a date agrees with the parts. -/
def agreesOnWeek (f : Fields) (d : Date) : Bool :=
  f.agrees .weekYear d.weekYear &&
  f.agreesOnYear .weekYearOfCentury d.weekYear (d.weekYear % 100) &&
  f.agrees .weekOfYear d.weekOfYear &&
  f.agrees .weekday d.weekday

/-- Whether the place of a date in its year and its other week numbers agree with
the parts. -/
def agreesOnPlace (f : Fields) (d : Date) : Bool :=
  f.agrees .ordinal d.ordinal &&
  f.agrees .weekFromSunday (d.weekFrom 6) &&
  f.agrees .weekFromMonday (d.weekFrom 0)

/-- The date in a week that starts on a given day of the week. -/
def dateInWeek (year week weekday start : Int) : Except Gap Date :=
  match Date.ofOrdinal? year 1 with
  | none => .error .contradiction
  | some first =>
      let ordinal := 1 + (start - first.weekday) % 7 + (week - 1) * 7 + (weekday - start) % 7
      match if ordinal ≤ 0 then none else Date.ofOrdinal? year ordinal.toNat with
      | some d => .ok d
      | none => .error .contradiction

/-- A date that must exist and pass a check. -/
def checked (d : Option Date) (check : Date → Bool) : Except Gap Date :=
  match d with
  | some d => if check d then .ok d else .error .contradiction
  | none => .error .contradiction

/-- The date named by the first sufficient group of parts: day of the month, place
in the year, week of the year counted in one of three ways. -/
def dateOfGroups (f : Fields) (year weekYear : Option Int) : Except Gap Date :=
  match year, f .month, f .day with
  | some y, some m, some d =>
      checked (Date.ofYMD? y m.toNat d.toNat) fun d => f.agreesOnWeek d && f.agreesOnPlace d
  | _, _, _ =>
  match year, f .ordinal with
  | some y, some n =>
      checked (Date.ofOrdinal? y n.toNat) fun d =>
        f.agreesOnDay d && f.agreesOnWeek d && f.agreesOnPlace d
  | _, _ =>
  match year, f .weekFromSunday, f .weekday with
  | some y, some w, some d => do
      let date ← dateInWeek y w d 6
      checked date fun d => f.agreesOnDay d && f.agreesOnWeek d && f.agreesOnPlace d
  | _, _, _ =>
  match year, f .weekFromMonday, f .weekday with
  | some y, some w, some d => do
      let date ← dateInWeek y w d 0
      checked date fun d => f.agreesOnDay d && f.agreesOnWeek d && f.agreesOnPlace d
  | _, _, _ =>
  match weekYear, f .weekOfYear, f .weekday with
  | some y, some w, some d =>
      checked (Date.ofWeek? y w d) fun d => f.agreesOnDay d && f.agreesOnPlace d
  | _, _, _ => .error .missing

/-- The date that the parts determine. -/
def date (f : Fields) : Except Gap Date := do
  let year ← resolveYear (f .year) (f .century) (f .yearOfCentury)
  let weekYear ← resolveYear (f .weekYear) none (f .weekYearOfCentury)
  let d ← f.dateOfGroups year weekYear
  if f.agrees .quarter d.quarter then .ok d else .error .contradiction

/-- The time that the parts determine.  Seconds and fractions may be left out, but
a fraction needs its second. -/
def time (f : Fields) : Except Gap TimeOfDay :=
  match f .half, f .hourOfHalf, f .minute with
  | some half, some hour, some minute =>
      if (f .second).isNone && (f .nano).isSome then .error .missing
      else
        match TimeOfDay.ofClock? (12 * half + hour).toNat minute.toNat
            ((f .second).getD 0).toNat ((f .nano).getD 0).toNat with
        | some t => .ok t
        | none => .error .contradiction
  | _, _, _ => .error .missing

/-- The date-time at a timestamp, if all other parts agree with it.  A leap second
has the timestamp of the second before it or after it. -/
def dateTimeAt (f : Fields) (seconds : Int) : Except Gap DateTime := do
  let some found := DateTime.ofTimestamp? seconds | .error .contradiction
  let leap := f .second == some 60
  let shown := found.time.clockSecond
  if leap && shown != 59 && shown != 0 then .error .contradiction
  else
    let some base :=
        if leap && shown == 0 then DateTime.ofTimestamp? (seconds - 1) else some found
      | .error .contradiction
    let parts := do
      let f ← if leap then some f else f.put .second base.time.clockSecond
      let f ← f.put .year base.date.year
      let f ← f.put .ordinal base.date.ordinal
      let f ← f.putHour base.time.hour
      f.put .minute base.time.minute
    match parts with
    | none => .error .contradiction
    | some f => do
        let d ← f.date
        let t ← f.time
        return ⟨d, t⟩

/-- The date-time that the parts determine.  Where date or time is incomplete, a
timestamp can stand in for it. -/
def dateTime (f : Fields) : Except Gap DateTime :=
  match f.date, f.time, f .timestamp with
  | .ok d, .ok t, none => .ok ⟨d, t⟩
  | .ok d, .ok t, some seconds =>
      let result : DateTime := ⟨d, t⟩
      if seconds = result.timestamp ∨ (t.isLeap ∧ seconds = result.timestamp + 1) then
        .ok result
      else .error .contradiction
  | .error .contradiction, _, _ => .error .contradiction
  | _, .error .contradiction, _ => .error .contradiction
  | _, _, some seconds => f.dateTimeAt seconds
  | _, _, none => .error .missing

theorem put_self {f g : Fields} {part : Part} {v : Int} (h : f.put part v = some g) :
    g part = some v := by
  unfold put at h
  split at h
  · cases h
    simp
  · split at h
    · cases h
      simp_all
    · exact absurd h (by simp)

/-- Other parts stay as they are. -/
theorem put_of_ne {f g : Fields} {part q : Part} {v : Int} (h : f.put part v = some g)
    (hne : q ≠ part) : g q = f q := by
  unfold put at h
  split at h
  · cases h
    simp [hne]
  · split at h
    · cases h
      rfl
    · exact absurd h (by simp)

end Fields
end FieldRules
