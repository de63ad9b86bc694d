import FieldRules.Calendar.DateTime

/-!
# Numbers of days

The days of the calendar are numbered without gaps: the number of the following day is one
greater, at the end of a month and of a year too, so that a date-time is told by its seconds
since the epoch and its fraction.  Taking minutes off a date-time takes their seconds off that
number, whatever boundaries lie between.

**Results.**
* `Date.exists_succ?`, `Date.exists_pred?`: the numbers of neighbouring days.
* `Date.number_injective`: the number tells the day.
* `DateTime.exists_minusMinutes?`: what a date-time some minutes earlier is.
* `DateTime.eq_of_timestamp`: timestamp and fraction tell the date-time.
-/

namespace FieldRules

/-- A year ends where the next one begins. -/
theorem daysBeforeYear_succ (year : Int) :
    daysBeforeYear (year + 1) = daysBeforeYear year + daysInYear year := by
  have hleap : isLeapYear year = true ↔ year % 4 = 0 ∧ (year % 100 ≠ 0 ∨ year % 400 = 0) := by
    simp [isLeapYear]
  simp only [daysBeforeYear, daysInYear, Int.add_sub_cancel]
  split
  next hyear =>
    have hparts := hleap.mp hyear
    omega
  next hyear =>
    have hparts := mt hleap.mpr hyear
    omega

theorem daysBeforeYear_mono {a b : Int} (h : a ≤ b) : daysBeforeYear a ≤ daysBeforeYear b := by
  simp only [daysBeforeYear]
  omega

/-- The months of a year add up to the year. -/
theorem daysBeforeMonth_thirteen (year : Int) : daysBeforeMonth year 13 = daysInYear year := by
  simp only [daysBeforeMonth, daysInMonth, daysInYear]
  cases isLeapYear year <;> rfl

theorem daysBeforeMonth_mono (year : Int) {a b : Nat} (h : a ≤ b) :
    daysBeforeMonth year a ≤ daysBeforeMonth year b := by
  induction h with
  | refl => exact Nat.le_refl _
  | step _ ih => exact Nat.le_trans ih (Nat.le_add_right _ _)

namespace Date

theorem eq_of_parts {a b : Date} (hyear : a.year = b.year) (hmonth : a.month = b.month)
    (hday : a.day = b.day) : a = b := by
  cases a
  cases b
  cases hyear
  cases hmonth
  cases hday
  rfl

/-- A date by its parts, and its number. -/
theorem exists_ofYMD? {year : Int} {month day : Nat} (hyear : firstYear ≤ year ∧ year ≤ lastYear)
    (hday : 1 ≤ day ∧ day ≤ daysInMonth year month) :
    ∃ d, ofYMD? year month day = some d ∧
      d.number = daysBeforeYear year + (daysBeforeMonth year month + day) :=
  ⟨_, dif_pos ⟨hyear.1, hyear.2, hday.1, hday.2⟩, rfl⟩

/-- The place of a date lies within its year. -/
theorem ordinal_bounds (d : Date) : 1 ≤ d.ordinal ∧ d.ordinal ≤ daysInYear d.year := by
  have hmonth : d.month + 1 ≤ 13 := Nat.succ_le_succ d.month_bounds.2
  have hyear := daysBeforeMonth_mono d.year hmonth
  rw [daysBeforeMonth_thirteen, daysBeforeMonth] at hyear
  have hpos := d.day_pos
  have hle := d.day_le
  rw [ordinal]
  omega

/-- There is a following day, with the following number, unless the calendar ends. -/
theorem exists_succ? {d : Date} (h : d.year < lastYear) :
    ∃ e, d.succ? = some e ∧ e.number = d.number + 1 := by
  have hyear := And.intro d.year_ge d.year_le
  have hpos := d.day_pos
  have hle := d.day_le
  obtain ⟨hmonth, hmonth'⟩ := d.month_bounds
  rw [succ?, number, ordinal]
  by_cases hday : d.day < daysInMonth d.year d.month
  · obtain ⟨e, he, hnumber⟩ := exists_ofYMD? hyear ⟨Nat.succ_pos d.day, hday⟩
    rw [if_pos hday]
    exact ⟨e, he, by omega⟩
  · have hend : d.day = daysInMonth d.year d.month := by omega
    rw [if_neg hday]
    by_cases hlast : d.month < 12
    · have hlength : 1 ≤ daysInMonth d.year (d.month + 1) :=
        Nat.le_trans (by decide) (daysInMonth_pos d.year (by omega))
      obtain ⟨e, he, hnumber⟩ := exists_ofYMD? hyear ⟨Nat.le_refl 1, hlength⟩
      rw [daysBeforeMonth] at hnumber
      rw [if_pos hlast]
      exact ⟨e, he, by omega⟩
    · have hmonth12 : d.month = 12 := by omega
      have hnext : firstYear ≤ d.year + 1 ∧ d.year + 1 ≤ lastYear := by omega
      have hlength : 1 ≤ daysInMonth (d.year + 1) 1 :=
        Nat.le_trans (by decide) (daysInMonth_pos (d.year + 1) (by decide))
      obtain ⟨e, he, hnumber⟩ := exists_ofYMD? hnext ⟨Nat.le_refl 1, hlength⟩
      have hmonths := daysBeforeMonth_thirteen d.year
      have hfirst : daysBeforeMonth (d.year + 1) 1 = 0 := rfl
      rw [daysBeforeMonth] at hmonths
      rw [daysBeforeYear_succ, hfirst] at hnumber
      rw [if_neg hlast, hend, hmonth12]
      exact ⟨e, he, by omega⟩

/-- There is a preceding day, with the preceding number, unless the calendar begins. -/
theorem exists_pred? {d : Date} (h : firstYear < d.year) :
    ∃ e, d.pred? = some e ∧ e.number = d.number - 1 := by
  have hyear := And.intro d.year_ge d.year_le
  have hpos := d.day_pos
  have hle := d.day_le
  obtain ⟨hmonth, hmonth'⟩ := d.month_bounds
  rw [pred?, number, ordinal]
  by_cases hday : 1 < d.day
  · have hbefore : 1 ≤ d.day - 1 ∧ d.day - 1 ≤ daysInMonth d.year d.month := by omega
    obtain ⟨e, he, hnumber⟩ := exists_ofYMD? hyear hbefore
    rw [if_pos hday]
    exact ⟨e, he, by omega⟩
  · have hstart : d.day = 1 := by omega
    rw [if_neg hday]
    by_cases hfirst : 1 < d.month
    · obtain ⟨m, hm⟩ : ∃ m, d.month = m + 1 := ⟨d.month - 1, by omega⟩
      have hlength : 1 ≤ daysInMonth d.year m :=
        Nat.le_trans (by decide) (daysInMonth_pos d.year (by omega))
      obtain ⟨e, he, hnumber⟩ := exists_ofYMD? hyear ⟨hlength, Nat.le_refl _⟩
      rw [if_pos hfirst, hm, Nat.add_sub_cancel, daysBeforeMonth]
      exact ⟨e, he, by omega⟩
    · have hmonth1 : d.month = 1 := by omega
      have hprevious : firstYear ≤ d.year - 1 ∧ d.year - 1 ≤ lastYear := by omega
      have hlength : 1 ≤ 31 ∧ 31 ≤ daysInMonth (d.year - 1) 12 := ⟨by decide, Nat.le_refl 31⟩
      obtain ⟨e, he, hnumber⟩ := exists_ofYMD? hprevious hlength
      have hmonths : daysBeforeMonth (d.year - 1) 12 + 31 = daysInYear (d.year - 1) :=
        daysBeforeMonth_thirteen (d.year - 1)
      have hyears := daysBeforeYear_succ (d.year - 1)
      have hbefore : daysBeforeMonth d.year 1 = 0 := rfl
      rw [Int.sub_add_cancel] at hyears
      rw [if_neg hfirst, hmonth1, hbefore]
      exact ⟨e, he, by omega⟩

/-- Whether a date lies before another one, by its parts. -/
def Before (a b : Date) : Prop :=
  a.year < b.year ∨ a.year = b.year ∧ (a.month < b.month ∨ a.month = b.month ∧ a.day < b.day)

/-- An earlier date has a lower number. -/
theorem number_lt {a b : Date} (h : a.Before b) : a.number < b.number := by
  have ha := a.ordinal_bounds
  have hb := b.ordinal_bounds
  rcases h with hyear | ⟨hyear, hmonth | ⟨hmonth, hday⟩⟩
  · have hyears : daysBeforeYear (a.year + 1) ≤ daysBeforeYear b.year := daysBeforeYear_mono hyear
    rw [daysBeforeYear_succ] at hyears
    simp only [number]
    omega
  · have hmonths : daysBeforeMonth a.year (a.month + 1) ≤ daysBeforeMonth a.year b.month :=
      daysBeforeMonth_mono a.year hmonth
    have hday := a.day_le
    have hday' := b.day_pos
    rw [daysBeforeMonth] at hmonths
    simp only [number, ordinal, ← hyear]
    omega
  · simp only [number, ordinal, ← hyear, ← hmonth]
    omega

/-- The number tells the day. -/
theorem number_injective {a b : Date} (h : a.number = b.number) : a = b := by
  have hbefore : ¬ a.Before b := fun hab => Int.ne_of_lt (number_lt hab) h
  have hafter : ¬ b.Before a := fun hab => Int.ne_of_lt (number_lt hab) h.symm
  simp only [Before] at hbefore hafter
  refine eq_of_parts ?_ ?_ ?_
  · omega
  · omega
  · omega

end Date

theorem TimeOfDay.eq_of_parts {a b : TimeOfDay} (hsecond : a.second = b.second)
    (hnano : a.nano = b.nano) : a = b := by
  cases a
  cases b
  cases hsecond
  cases hnano
  rfl

namespace DateTime

/-- Timestamp and fraction tell the date-time. -/
theorem eq_of_timestamp {a b : DateTime} (h : a.timestamp = b.timestamp)
    (hnano : a.time.nano = b.time.nano) : a = b := by
  have hsecond := a.time.second_lt
  have hsecond' := b.time.second_lt
  simp only [timestamp] at h
  have hdate : a.date = b.date := Date.number_injective (by omega)
  have htime : a.time = b.time := by
    rw [hdate] at h
    exact TimeOfDay.eq_of_parts (by omega) hnano
  obtain ⟨date, time⟩ := a
  cases hdate
  cases htime
  rfl

/-- A number of seconds from the start of a day falls on that day or on a neighbouring one. -/
theorem exists_dayAt {d : Date} {seconds : Int} (hyear : firstYear < d.year ∧ d.year < lastYear)
    (hseconds : -86400 ≤ seconds ∧ seconds < 2 * 86400) :
    ∃ e, (∀ k : Date → Option DateTime, (if seconds < 0 then d.pred?.bind k
        else if 86400 ≤ seconds then d.succ?.bind k else (some d).bind k) = k e) ∧
      e.number * 86400 + seconds % 86400 = d.number * 86400 + seconds := by
  by_cases hbefore : seconds < 0
  · obtain ⟨e, he, hnumber⟩ := Date.exists_pred? hyear.1
    exact ⟨e, fun k => by rw [if_pos hbefore, he, Option.bind_some], by omega⟩
  · by_cases hafter : 86400 ≤ seconds
    · obtain ⟨e, he, hnumber⟩ := Date.exists_succ? hyear.2
      exact ⟨e, fun k => by rw [if_neg hbefore, if_pos hafter, he, Option.bind_some], by omega⟩
    · exact ⟨d, fun k => by rw [if_neg hbefore, if_neg hafter, Option.bind_some], by omega⟩

/-- A date-time some minutes earlier, by less than a day, has a timestamp that much smaller and
the same fraction. -/
theorem exists_minusMinutes? {t : DateTime} {minutes : Int} (hnano : t.time.nano < nanosPerSecond)
    (hyear : firstYear < t.date.year ∧ t.date.year < lastYear)
    (hminutes : minutes.natAbs < 24 * 60) :
    ∃ u, t.minusMinutes? minutes = some u ∧
      u.timestamp = t.timestamp - 60 * minutes ∧ u.time.nano = t.time.nano := by
  have hsecond := t.time.second_lt
  rw [minusMinutes?]
  generalize hseconds : (t.time.second : Int) - 60 * minutes = seconds
  have hrange : -86400 ≤ seconds ∧ seconds < 2 * 86400 := by omega
  obtain ⟨date, hdate, hnumber⟩ := exists_dayAt hyear hrange
  have hparts : (seconds % 86400).toNat < 86400 ∧ t.time.nano < 2 * nanosPerSecond ∧
      (nanosPerSecond ≤ t.time.nano → (seconds % 86400).toNat % 60 = 59) := by omega
  refine ⟨⟨date, ⟨(seconds % 86400).toNat, t.time.nano, hparts.1, hparts.2.1, hparts.2.2⟩⟩,
    ?_, ?_, rfl⟩
  · rw [TimeOfDay.ofParts?, dif_pos hparts]
    exact hdate _
  · simp only [timestamp]
    omega

end DateTime
end FieldRules
