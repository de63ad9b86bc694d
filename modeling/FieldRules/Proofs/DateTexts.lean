import FieldRules.Proofs.Numerals
import FieldRules.Compiler.Options
import FieldRules.Schema.Operand

/-!
# Texts of date-times

The text of a date-time reads back.  It is no instant, because it ends where the offset
should stand, and the first default format wants a `T` where it has a blank; under the
second one the reader puts down the parts of the date-time as they are, and these parts
determine it.

**Results.**
* `Pattern.scan_date`, `Pattern.scan_time`: what a date and a time say under a pattern.
* `Fields.dateTime_parts`: the parts of a date-time determine it.
* `DateTime.display_injective`: the text tells the date-time.
* `Operand.coerce_display`: with the default formats, the text denotes the date-time.
-/

namespace FieldRules

open Text

namespace Fields

/-- The parts that are known, with one more. -/
def set (f : Fields) (part : Part) (v : Int) : Fields :=
  fun q => if q = part then some v else f q

theorem put_of_none {f : Fields} {part : Part} (h : f part = none) (v : Int) :
    f.put part v = some (f.set part v) := by
  simp only [put, h]
  rfl

theorem putIn_of_none {f : Fields} {part : Part} {low high v : Int} (h : f part = none)
    (hv : low ≤ v ∧ v ≤ high) : f.putIn low high part v = some (f.set part v) := by
  rw [putIn, if_pos hv, put_of_none h]

/-- The parts that the text of a date-time says. -/
def parts (t : DateTime) : Fields
  | .year => some t.date.year
  | .month => some t.date.month
  | .day => some t.date.day
  | .half => some (t.time.hour / 12)
  | .hourOfHalf => some (t.time.hour % 12)
  | .minute => some t.time.minute
  | .second => some t.time.clockSecond
  | .nano => if t.time.clockNano = 0 then none else some t.time.clockNano
  | _ => none

end Fields

namespace TimeOfDay

theorem ofParts?_eq_some (t : TimeOfDay) : ofParts? t.second t.nano = some t := by
  have h : t.second < 86400 ∧ t.nano < 2 * nanosPerSecond ∧
      (nanosPerSecond ≤ t.nano → t.second % 60 = 59) :=
    ⟨t.second_lt, t.nano_lt, t.leap_ends_minute⟩
  rw [ofParts?, dif_pos h]

/-- A time is the one that a clock shows at it. -/
theorem ofClock?_clock (t : TimeOfDay) :
    ofClock? t.hour t.minute t.clockSecond t.clockNano = some t := by
  have hsecond : t.hour * 3600 + t.minute * 60 + t.second % 60 = t.second := by
    have hlt := t.second_lt
    simp only [hour, minute]
    omega
  have hnano := t.nano_lt
  rw [ofClock?, if_pos t.clock_lt, ← ofParts?_eq_some t]
  by_cases hleap : nanosPerSecond ≤ t.nano
  · have hmod := t.leap_ends_minute hleap
    have hclock : t.clockSecond = 60 := by simp [clockSecond, isLeap, hleap, hmod]
    have hrest : t.clockNano + nanosPerSecond = t.nano := by
      rw [clockNano, Nat.mod_eq_sub_mod hleap, Nat.mod_eq_of_lt (by omega)]
      omega
    rw [if_pos hclock, hrest, ← hmod, hsecond]
  · have hclock : t.clockSecond = t.second % 60 := by simp [clockSecond, isLeap, hleap]
    have hrest : t.clockNano = t.nano := Nat.mod_eq_of_lt (by omega)
    rw [if_neg (by omega), hclock, hrest, hsecond]

end TimeOfDay

namespace Fields

/-- The parts of a date-time determine its date. -/
theorem date_parts (t : DateTime) : (parts t).date = .ok t.date := by
  simp [date, parts, resolveYear, dateOfGroups, checked, Date.ofYMD?_eq_some, agreesOnWeek,
    agreesOnPlace, agreesOnYear, agrees, bind, Except.bind]

theorem time_parts (t : DateTime) : (parts t).time = .ok t.time := by
  have hhour : (12 * ((t.time.hour : Int) / 12) + (t.time.hour : Int) % 12).toNat
      = t.time.hour := by omega
  have hclock := t.time.ofClock?_clock
  by_cases hn : t.time.clockNano = 0
  · rw [hn] at hclock
    simp [time, parts, hn, hhour, hclock]
  · simp [time, parts, hn, hhour, hclock]

/-- The parts of a date-time determine it. -/
theorem dateTime_parts (t : DateTime) : (parts t).dateTime = .ok t := by
  rw [dateTime, date_parts, time_parts]
  rfl

end Fields

theorem Text.isBlank_of_isDigit {c : Char} (h : c.isDigit = true) : isBlank c = false := by
  have hc := isDigit_iff.mp h
  simp [isBlank, inRanges, blankRanges]
  omega

theorem Text.trimStart_digits {ds : List Char} (hds : Digits ds) (hne : ds ≠ [])
    (s : List Char) : trimStart (ds ++ s) = ds ++ s := by
  cases ds with
  | nil => exact absurd rfl hne
  | cons c ds =>
      exact trimStart_cons_of_not_blank _ (isBlank_of_isDigit (hds c List.mem_cons_self))

namespace Quantity

variable {q : Quantity} {f : Fields} {s : List Char}

/-- A number is scanned by reading it behind any blanks and storing it. -/
theorem scan_of_read {v : Int} {rest : List Char}
    (h : q.readSigned? (trimStart s) = some (v, rest)) :
    q.scan (f, s) = (q.store f v).map fun g => (g, rest) := by
  simp only [scan, h, Option.bind_eq_bind, Option.bind_some]
  cases q.store f v <;> rfl

/-- A number that begins with a digit has no sign. -/
theorem readSigned?_of_readNumber? {width n : Nat} {rest : List Char}
    (hwidth : q.width = some width) (h : readNumber? width s = some (n, rest)) :
    q.readSigned? s = some ((n : Int), rest) := by
  obtain ⟨ds, rfl, hds, hne⟩ := readNumber?_eq_some h
  have hsign : ∀ {c r}, c.isDigit = false → ds ++ rest ≠ c :: r := by
    intro c r hc heq
    obtain ⟨d, ds', rfl⟩ := List.exists_cons_of_ne_nil hne
    obtain rfl : d = c := (List.cons.inj heq).1
    simp [hds d List.mem_cons_self] at hc
  simp only [readSigned?, hwidth, h]
  split
  next heq => exact absurd heq (hsign rfl)
  next heq => exact absurd heq (hsign rfl)
  next => rfl

/-- A number without a sign is read as it stands. -/
theorem readSigned?_digits {width : Nat} {ds : List Char} (hwidth : q.width = some width)
    (hds : Digits ds) (hne : ds ≠ []) (hlength : ds.length ≤ width) (hs : EndsRun s) :
    q.readSigned? (ds ++ s) = some ((value ds : Int), s) :=
  readSigned?_of_readNumber? hwidth (readNumber?_append hds hs hne hlength)

/-- A padded numeral is read as its number. -/
theorem scan_padded {width n : Nat} (hwidth : q.width = some width) (hpos : 0 < width)
    (hn : n < 10 ^ width) (hs : EndsRun s) :
    q.scan (f, padded width n ++ s) = (q.store f n).map fun g => (g, s) := by
  have hds := digits_padded width n
  have hne := padded_ne_nil width n
  have hread := readSigned?_digits hwidth hds hne (Nat.le_of_eq (length_padded hpos hn)) hs
  rw [value_padded] at hread
  exact scan_of_read (by rw [trimStart_digits hds hne, hread])

/-- The text of a year is read as the year. -/
theorem scan_yearText (y : Int) (hs : EndsRun s) :
    Quantity.year.scan (f, Date.yearText y ++ s) =
      (Quantity.year.store f y).map fun g => (g, s) := by
  have hrun := readRun?_append (digits_padded 4 y.natAbs) hs (padded_ne_nil 4 y.natAbs)
  rw [value_padded] at hrun
  rw [Date.yearText]
  split
  next hy =>
    have hnat : (y.natAbs : Int) = y := by omega
    rw [scan_padded rfl (by decide) (by omega) hs, hnat]
  next hy =>
    rw [List.cons_append]
    by_cases hneg : y < 0
    · have hnat : -(y.natAbs : Int) = y := by omega
      rw [if_pos hneg]
      refine scan_of_read ?_
      rw [trimStart_cons_of_not_blank _ (by decide)]
      simp only [readSigned?, isSigned, hrun, Option.map_some, hnat]
    · have hnat : (y.natAbs : Int) = y := by omega
      rw [if_neg hneg]
      refine scan_of_read ?_
      rw [trimStart_cons_of_not_blank _ (by decide)]
      simp only [readSigned?, isSigned, hrun, Option.map_some, hnat]

end Quantity

/-- Up to nine digits behind a point are read with their place value. -/
theorem PatternItem.readFraction?_append {ds s : List Char} (hds : Digits ds) (hs : EndsRun s)
    (hne : ds ≠ []) (hlength : ds.length ≤ 9) :
    readFraction? (ds ++ s) = some ((value ds : Int) * placeValue (9 - ds.length), s) := by
  rw [readFraction?, readNumber?_append hds hs hne hlength]
  simp [run_append hds hs, Nat.min_eq_right hlength]

namespace TimeOfDay

/-- A fraction written in up to nine places is read in nanoseconds. -/
theorem readFraction?_padded {places n nano : Nat} (hplaces : 0 < places ∧ places ≤ 9)
    (hn : n < 10 ^ places) (hnano : n * placeValue (9 - places) = nano) :
    PatternItem.readFraction? (padded places n) = some ((nano : Int), []) := by
  have hlength := length_padded hplaces.1 hn
  have hread := PatternItem.readFraction?_append (digits_padded places n) endsRun_nil
    (padded_ne_nil places n) (by omega)
  rw [List.append_nil, value_padded, hlength] at hread
  rw [hread, ← hnano]
  simp

/-- The text of a fraction is empty, or a point and digits that are read as the
fraction. -/
theorem fractionText_cases {nano : Nat} (hnano : nano < nanosPerSecond) :
    (nano = 0 ∧ fractionText nano = []) ∨
      nano ≠ 0 ∧ ∃ ds, fractionText nano = '.' :: ds ∧ Digits ds ∧
        PatternItem.readFraction? ds = some ((nano : Int), []) := by
  rw [nanosPerSecond] at hnano
  have h3 : placeValue 3 = 1000 := rfl
  have h6 : placeValue 6 = 1000000 := rfl
  rw [fractionText]
  split
  next hzero => exact .inl ⟨hzero, rfl⟩
  next hzero =>
    refine .inr ⟨hzero, ?_⟩
    split
    next =>
      exact ⟨_, rfl, digits_padded 3 _,
        readFraction?_padded (by decide) (by omega) (by rw [h6]; omega)⟩
    next =>
      split
      next =>
        exact ⟨_, rfl, digits_padded 6 _,
          readFraction?_padded (by decide) (by omega) (by rw [h3]; omega)⟩
      next =>
        exact ⟨_, rfl, digits_padded 9 _,
          readFraction?_padded (by decide) (by omega) (Nat.mul_one nano)⟩

theorem endsRun_fractionText (t : TimeOfDay) : EndsRun (fractionText t.clockNano) := by
  obtain ⟨-, -, -, hnano⟩ := t.clock_lt
  rcases fractionText_cases hnano with ⟨-, htext⟩ | ⟨-, ds, htext, -⟩
  · exact htext ▸ endsRun_nil
  · exact htext ▸ endsRun_cons rfl

end TimeOfDay

namespace Pattern

variable {f : Fields} {s : List Char} {items : Pattern}

/-- A number written in the width of its quantity is read back and stored. -/
theorem scan_padded {q : Quantity} {width n : Nat} {g : Fields} (hwidth : q.width = some width)
    (hpos : 0 < width) (hn : n < 10 ^ width) (hs : EndsRun s) (hstore : q.store f n = some g) :
    scan (f, padded width n ++ s) (.number q :: items) = scan (g, s) items := by
  rw [scan_cons, PatternItem.scan, Quantity.scan_padded hwidth hpos hn hs, hstore]
  rfl

/-- The text of a year is read back: in four digits as a number of that width, and
outside of them with a sign, behind which all digits are read. -/
theorem scan_yearText {y : Int} {g : Fields} (hs : EndsRun s)
    (hstore : Quantity.year.store f y = some g) :
    scan (f, Date.yearText y ++ s) (.number .year :: items) = scan (g, s) items := by
  rw [scan_cons, PatternItem.scan, Quantity.scan_yearText y hs, hstore]
  rfl

theorem scan_literal (c : Char) :
    scan (f, c :: s) (.literal c :: items) = scan (f, s) items := by
  simp [scan_cons, PatternItem.scan, PatternItem.cut?]

/-- The text of a date is read as its year, month and day. -/
theorem scan_date (d : Date) (hyear : f .year = none) (hmonth : f .month = none)
    (hday : f .day = none) (hs : EndsRun s) :
    scan (f, d.display ++ s)
        (.number .year :: .literal '-' :: .number .month :: .literal '-' :: .number .day ::
          items) =
      scan (((f.set .year d.year).set .month d.month).set .day d.day, s) items := by
  obtain ⟨hmonth1, hmonth12⟩ := d.month_bounds
  have hday31 := Nat.le_trans d.day_le (daysInMonth_le d.year d.month)
  have hday1 := d.day_pos
  have hrange : -2147483648 ≤ d.year ∧ d.year ≤ 2147483647 := by
    have hfirst := d.year_ge
    have hlast := d.year_le
    simp only [firstYear, lastYear] at hfirst hlast
    omega
  have hy : Quantity.year.store f d.year = some (f.set .year d.year) :=
    Fields.putIn_of_none hyear hrange
  have hm : Quantity.month.store (f.set .year d.year) d.month =
      some ((f.set .year d.year).set .month d.month) :=
    Fields.putIn_of_none (by simp [Fields.set, hmonth]) (by omega)
  have hd : Quantity.day.store ((f.set .year d.year).set .month d.month) d.day =
      some (((f.set .year d.year).set .month d.month).set .day d.day) :=
    Fields.putIn_of_none (by simp [Fields.set, hday]) (by omega)
  simp only [Date.display, List.append_assoc, List.cons_append]
  rw [scan_yearText (endsRun_cons rfl) hy, scan_literal,
    scan_padded rfl (by decide) (by omega) (endsRun_cons rfl) hm, scan_literal,
    scan_padded rfl (by decide) (by omega) hs hd]

/-- The fraction in the text of a time is read as it is, if there is one. -/
theorem scan_fractionText {nano : Nat} (hnano : nano < nanosPerSecond) (hf : f .nano = none) :
    scan (f, TimeOfDay.fractionText nano) [.fraction] =
      some (if nano = 0 then f else f.set .nano nano, []) := by
  rcases TimeOfDay.fractionText_cases hnano with ⟨rfl, htext⟩ | ⟨hne, ds, htext, -, hread⟩
  · rw [htext]
    rfl
  · rw [htext, if_neg hne]
    simp [scan, PatternItem.scan, hread, PatternItem.keep, Fields.put_of_none hf]

/-- The text of a time is read as its hour, minute, second and fraction. -/
theorem scan_time (t : TimeOfDay) (hhalf : f .half = none) (hhour : f .hourOfHalf = none)
    (hminute : f .minute = none) (hsecond : f .second = none) (hnano : f .nano = none) :
    scan (f, t.display)
        [.number .hour, .literal ':', .number .minute, .literal ':', .number .second,
          .fraction] =
      some
        (let g := (((f.set .half (t.hour / 12)).set .hourOfHalf (t.hour % 12)).set .minute
            t.minute).set .second t.clockSecond
          if t.clockNano = 0 then g else g.set .nano t.clockNano, []) := by
  obtain ⟨hh, hm, hs, hn⟩ := t.clock_lt
  have h1 : Quantity.hour.store f t.hour =
      some ((f.set .half (t.hour / 12)).set .hourOfHalf (t.hour % 12)) := by
    have hrange : (0 : Int) ≤ t.hour ∧ (t.hour : Int) ≤ 23 := by omega
    have hfree : f.set .half (t.hour / 12) .hourOfHalf = none := by simp [Fields.set, hhour]
    simp [Quantity.store, Fields.putHour, hrange, Fields.put_of_none hhalf,
      Fields.put_of_none hfree]
  have h2 : Quantity.minute.store ((f.set .half (t.hour / 12)).set .hourOfHalf (t.hour % 12))
      t.minute = some (((f.set .half (t.hour / 12)).set .hourOfHalf (t.hour % 12)).set .minute
        t.minute) :=
    Fields.putIn_of_none (by simp [Fields.set, hminute]) (by omega)
  have h3 : Quantity.second.store (((f.set .half (t.hour / 12)).set .hourOfHalf
      (t.hour % 12)).set .minute t.minute) t.clockSecond =
      some ((((f.set .half (t.hour / 12)).set .hourOfHalf (t.hour % 12)).set .minute
        t.minute).set .second t.clockSecond) :=
    Fields.putIn_of_none (by simp [Fields.set, hsecond]) (by omega)
  simp only [TimeOfDay.display, List.append_assoc, List.cons_append]
  rw [scan_padded rfl (by decide) (by omega) (endsRun_cons rfl) h1, scan_literal,
    scan_padded rfl (by decide) (by omega) (endsRun_cons rfl) h2, scan_literal,
    scan_padded rfl (by decide) (by omega) t.endsRun_fractionText h3,
    scan_fractionText hn (by simp [Fields.set, hnano])]

/-- The second default format: a date, a blank, and a time. -/
def spaced : Pattern :=
  [.number .year, .literal '-', .number .month, .literal '-', .number .day, .blank,
    .number .hour, .literal ':', .number .minute, .literal ':', .number .second, .fraction]

theorem ofText?_spaced : ofText? "%Y-%m-%d %H:%M:%S%.f" = some spaced := rfl

/-- The text of a date-time says its parts. -/
theorem fields?_display (t : DateTime) : spaced.fields? t.display = some (Fields.parts t) := by
  have htrim : trimStart (' ' :: t.time.display) = t.time.display := by
    have hblank : trimStart (' ' :: t.time.display) = trimStart t.time.display := rfl
    rw [hblank]
    simp only [TimeOfDay.display, List.append_assoc]
    exact trimStart_digits (digits_padded 2 _) (padded_ne_nil 2 _) _
  rw [fields?, spaced, DateTime.display, scan_date t.date rfl rfl rfl (endsRun_cons rfl), scan_cons,
    PatternItem.scan, htrim, Option.bind_some,
    scan_time t.time rfl rfl rfl rfl rfl]
  refine congrArg some (funext fun part => ?_)
  by_cases hn : t.time.clockNano = 0 <;> cases part <;>
    simp [Fields.parts, Fields.set, hn, Fields.empty]

end Pattern

namespace Instant

/-- The displayed date is read back by the reader of instants, if its year has four
digits. -/
theorem readDate?_display {d : Date} {s : List Char} (hyear : 0 ≤ d.year ∧ d.year ≤ 9999)
    (hs : EndsRun s) : readDate? (d.display ++ s) = some (d, s) := by
  obtain ⟨hmonth1, hmonth12⟩ := d.month_bounds
  have hday := Nat.le_trans d.day_le (daysInMonth_le d.year d.month)
  have hnat : (d.year.natAbs : Int) = d.year := by omega
  have hyear4 : d.year.natAbs < 10 ^ 4 := by omega
  have hmonth2 : d.month < 10 ^ 2 := by omega
  have hday2 : d.day < 10 ^ 2 := by omega
  have hy := readExactly?_padded (by decide) hyear4
    (endsRun_cons (c := '-') (s := padded 2 d.month ++ '-' :: (padded 2 d.day ++ s)) rfl)
  have hm := readExactly?_padded (by decide) hmonth2
    (endsRun_cons (c := '-') (s := padded 2 d.day ++ s) rfl)
  have hd := readExactly?_padded (by decide) hday2 hs
  simp [readDate?, Date.display, Date.yearText, hyear, hy, hm, hd, PatternItem.cut?, hnat,
    Date.ofYMD?_eq_some]

theorem readTime?_display (t : TimeOfDay) : readTime? t.display = some (t, []) := by
  obtain ⟨hhour, hminute, hsecond, hnano⟩ := t.clock_lt
  have hfraction : readFraction? (TimeOfDay.fractionText t.clockNano) =
      some (t.clockNano, []) := by
    rcases TimeOfDay.fractionText_cases hnano with ⟨hzero, htext⟩ | ⟨-, ds, htext, -, hread⟩
    · rw [htext, hzero]
      rfl
    · rw [htext]
      simp [readFraction?, hread]
  have hhour2 : t.hour < 10 ^ 2 := by omega
  have hminute2 : t.minute < 10 ^ 2 := by omega
  have hsecond2 : t.clockSecond < 10 ^ 2 := by omega
  have hh := readExactly?_padded (by decide) hhour2
    (endsRun_cons (c := ':') (s := padded 2 t.minute ++ ':' :: (padded 2 t.clockSecond ++
      TimeOfDay.fractionText t.clockNano)) rfl)
  have hm := readExactly?_padded (by decide) hminute2
    (endsRun_cons (c := ':') (s := padded 2 t.clockSecond ++
      TimeOfDay.fractionText t.clockNano) rfl)
  have hs := readExactly?_padded (by decide) hsecond2 t.endsRun_fractionText
  simp [readTime?, TimeOfDay.display, hh, hm, hs, PatternItem.cut?, hfraction,
    t.ofClock?_clock]

/-- The text of a date-time is no instant: the offset is missing. -/
theorem parse?_display (t : DateTime) : parse? t.display = none := by
  suffices hlocal : readLocal? t.display = none by
    rw [parse?, hlocal]
    rfl
  by_cases hyear : 0 ≤ t.date.year ∧ t.date.year ≤ 9999
  · have hdate := readDate?_display hyear (endsRun_cons (c := ' ') (s := t.time.display) rfl)
    simp [readLocal?, DateTime.display, hdate, PatternItem.cut?, readTime?_display,
      PatternItem.readOffset?]
  · obtain ⟨c, s, hc, htext⟩ : ∃ c s, c.isDigit = false ∧ t.display = c :: s := by
      rw [DateTime.display, Date.display, Date.yearText, if_neg hyear]
      split
      · exact ⟨'-', _, rfl, rfl⟩
      · exact ⟨'+', _, rfl, rfl⟩
    have hread : readExactly? 4 t.display = none := by
      simp [readExactly?, htext, run, hc]
    simp [readLocal?, readDate?, hread]

end Instant

namespace DateTime

/-- Characters of the text of a date. -/
theorem mem_display_date {d : Date} {c : Char} (h : c ∈ d.display) :
    c.isDigit = true ∨ c = '-' ∨ c = '+' := by
  have hpadded : ∀ {w n}, c ∈ padded w n → c.isDigit = true := fun hc => digits_padded _ _ c hc
  simp only [Date.display, Date.yearText, List.mem_append, List.mem_cons] at h
  rcases h with (hyear | rfl | hmonth) | rfl | hday
  · split at hyear
    · exact .inl (hpadded hyear)
    · split at hyear <;> rcases List.mem_cons.mp hyear with rfl | hyear
      · simp
      · exact .inl (hpadded hyear)
      · simp
      · exact .inl (hpadded hyear)
  · simp
  · exact .inl (hpadded hmonth)
  · simp
  · exact .inl (hpadded hday)

/-- Characters of the text of a time. -/
theorem mem_display_time {t : TimeOfDay} {c : Char} (h : c ∈ t.display) :
    c.isDigit = true ∨ c = ':' ∨ c = '.' := by
  obtain ⟨-, -, -, hnano⟩ := t.clock_lt
  have hpadded : ∀ {w n}, c ∈ padded w n → c.isDigit = true := fun hc => digits_padded _ _ c hc
  have hfraction : c ∈ TimeOfDay.fractionText t.clockNano → c.isDigit = true ∨ c = '.' := by
    rcases TimeOfDay.fractionText_cases hnano with ⟨-, htext⟩ | ⟨-, ds, htext, hds, -⟩
    · simp [htext]
    · rw [htext, List.mem_cons]
      rintro (rfl | hc)
      · exact .inr rfl
      · exact .inl (hds c hc)
  simp only [TimeOfDay.display, List.mem_append, List.mem_cons] at h
  rcases h with ((hhour | rfl | hminute) | rfl | hsecond) | hrest
  · exact .inl (hpadded hhour)
  · simp
  · exact .inl (hpadded hminute)
  · simp
  · exact .inl (hpadded hsecond)
  · rcases hfraction hrest with hc | rfl
    · exact .inl hc
    · simp

theorem isBlank_of_mem_display {t : DateTime} {c : Char}
    (h : c ∈ t.date.display ∨ c ∈ t.time.display) : isBlank c = false := by
  have hsign : isBlank '-' = false ∧ isBlank '+' = false ∧ isBlank ':' = false ∧
      isBlank '.' = false := by decide
  rcases h with h | h
  · rcases mem_display_date h with hc | rfl | rfl
    · exact isBlank_of_isDigit hc
    · exact hsign.1
    · exact hsign.2.1
  · rcases mem_display_time h with hc | rfl | rfl
    · exact isBlank_of_isDigit hc
    · exact hsign.2.2.1
    · exact hsign.2.2.2

theorem display_date_ne_nil (d : Date) : d.display ≠ [] := by
  simp [Date.display]

theorem display_time_ne_nil (t : TimeOfDay) : t.display ≠ [] := by
  simp [TimeOfDay.display]

/-- There are no blanks around the text of a date-time. -/
theorem trim_display (t : DateTime) : trim t.display = t.display := by
  refine trim_of_not_blank (fun c hc => ?_) fun c hc => ?_
  · rw [display, List.head?_append, Option.or_eq_some_iff] at hc
    rcases hc with hc | ⟨hnone, -⟩
    · exact isBlank_of_mem_display (.inl (List.mem_of_head? hc))
    · exact absurd (List.head?_eq_none_iff.mp hnone) (display_date_ne_nil t.date)
  · rw [display, List.append_cons, List.getLast?_append, Option.or_eq_some_iff] at hc
    rcases hc with hc | ⟨hnone, -⟩
    · exact isBlank_of_mem_display (.inr (List.mem_of_getLast? hc))
    · exact absurd (List.getLast?_eq_none_iff.mp hnone) (display_time_ne_nil t.time)

/-- The displayed date-time is read back by the pattern with a blank. -/
theorem dateTime?_display (t : DateTime) : Pattern.spaced.dateTime? t.display = some t := by
  rw [Pattern.dateTime?, Pattern.fields?_display, Option.bind_some, Fields.dateTime_parts]
  rfl

/-- The text of a date-time tells the date-time. -/
theorem display_injective : Function.Injective display := by
  intro t u h
  have htu := dateTime?_display u
  rw [← h, dateTime?_display] at htu
  exact Option.some.inj htu

end DateTime

namespace Pattern

/-- The first default format: a date, a `T`, and a time. -/
def joined : Pattern :=
  [.number .year, .literal '-', .number .month, .literal '-', .number .day, .literal 'T',
    .number .hour, .literal ':', .number .minute, .literal ':', .number .second, .fraction]

theorem ofText?_joined : ofText? "%Y-%m-%dT%H:%M:%S%.f" = some joined := rfl

/-- The first default format does not read the text of a date-time: there is a blank where
the `T` should stand. -/
theorem fields?_joined (t : DateTime) : joined.fields? t.display = none := by
  rw [fields?, joined, DateTime.display, scan_date t.date rfl rfl rfl (endsRun_cons rfl), scan_cons]
  rfl

end Pattern

namespace Operand

theorem dateTimeUnder?_display (t : DateTime) :
    dateTimeUnder? "%Y-%m-%dT%H:%M:%S%.f" t.display = none ∧
      dateTimeUnder? "%Y-%m-%d %H:%M:%S%.f" t.display = some t := by
  constructor
  · simp [dateTimeUnder?, Pattern.ofText?_joined, Pattern.dateTime?, Pattern.date?,
      Pattern.fields?_joined]
  · simp [dateTimeUnder?, Pattern.ofText?_spaced, t.dateTime?_display]

/-- **Displayed date-times coerce back to themselves.**  Whatever its year, its fraction and
whether it lies in a leap second, the text of a date-time is coerced to that date-time with
the default formats; neither the form of instants nor the first format reads the text. -/
theorem coerce_display (t : DateTime) :
    coerce ({} : Options).dateFormats .dateTime (Value.dateTime t).display =
      .ok (some (.dateTime t)) := by
  obtain ⟨hjoined, hspaced⟩ := dateTimeUnder?_display t
  have hread : dateTime? ({} : Options).dateFormats t.display = some t := by
    simp [dateTime?, Instant.parse?_display, firstDateTime?, hjoined, hspaced]
  have hne : String.ofList t.display ≠ "" := by
    intro hempty
    have hnil : t.display = [] := by simpa using congrArg String.toList hempty
    simp [DateTime.display] at hnil
  rw [Value.display, coerce_trim hne (by decide), String.toList_ofList, t.trim_display, read,
    hread]
  rfl

end Operand

end FieldRules
