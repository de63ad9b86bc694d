import FieldRules.Proofs.DateTexts
import FieldRules.Proofs.DayNumbers
import FieldRules.Proofs.PartsRead

/-!
# Instants

An instant is written as a local date and time with the offset of the local time from universal
time.  It is read before any date format is tried, and denotes the local time less the offset,
also where the offset leads over the boundary of a day, a month or a year.

**Results.**
* `Instant.readLocal?_text`: what is written is read.
* `Instant.parse?_text`: the date-time that a written instant denotes.
* `Operand.coerce_instant`: what is written is what is coerced, and the same instant written in
  two ways is the same value.
-/

namespace FieldRules

open Text

namespace Instant

/-- The offset of a local time from universal time. -/
inductive Zone
  | universal (small : Bool)
  | offset (behind : Bool) (hours : Fin 24) (minutes : Fin 60)
deriving DecidableEq, Repr

namespace Zone

/-- The text of an offset: a letter for universal time, or a sign, hours and minutes. -/
def text : Zone → List Char
  | .universal small => [if small then 'z' else 'Z']
  | .offset behind hours minutes =>
      (if behind then '-' else '+') :: padded 2 hours ++ ':' :: padded 2 minutes

/-- An offset in minutes. -/
def minutes : Zone → Int
  | .universal _ => 0
  | .offset behind hours minutes =>
      (if behind then -1 else 1) * (60 * (hours : Nat) + (minutes : Nat))

theorem natAbs_minutes_le (z : Zone) : z.minutes.natAbs ≤ 23 * 60 + 59 := by
  cases z with
  | universal small => exact Nat.zero_le _
  | offset behind hours minutes =>
      simp only [Zone.minutes]
      split <;> omega

end Zone

/-- A written instant: a date of the years 0 to 9999, a mark before the time, the time with at
most nine places behind the second, and the offset. -/
structure Written where
  date : Date
  year_ge : 0 ≤ date.year
  year_le : date.year ≤ 9999
  mark : Char
  mark_mem : mark ∈ ['T', 't', ' ']
  hour : Fin 24
  minute : Fin 60
  second : Fin 60
  places : List Char
  places_digits : Digits places
  places_le : places.length ≤ 9
  zone : Zone

namespace Written

/-- The places behind the second, if there are any, with the point before them. -/
def fractionText (w : Written) : List Char :=
  if w.places = [] then [] else '.' :: w.places

/-- The time and the offset of a written instant. -/
def clockText (w : Written) : List Char :=
  padded 2 w.hour ++ ':' :: (padded 2 w.minute ++ ':' :: (padded 2 w.second ++
    (w.fractionText ++ w.zone.text)))

def text (w : Written) : List Char :=
  w.date.display ++ w.mark :: w.clockText

/-- The fraction of a second that the places say, in nanoseconds. -/
def nano (w : Written) : Nat :=
  value w.places * placeValue (9 - w.places.length)

theorem nano_lt (w : Written) : w.nano < nanosPerSecond := by
  have hfits := PatternItem.fits_nano (value_lt w.places_digits) w.places_le
  simp only [Part.Fits] at hfits
  simp only [nano, nanosPerSecond]
  omega

/-- The local date-time of a written instant. -/
def localTime (w : Written) : DateTime where
  date := w.date
  time :=
    { second := w.hour * 3600 + w.minute * 60 + w.second
      nano := w.nano
      second_lt := by omega
      nano_lt := Nat.lt_of_lt_of_le w.nano_lt (by decide)
      leap_ends_minute := fun hleap => absurd w.nano_lt (Nat.not_lt.mpr hleap) }

/-- The instant that is written: the seconds since the epoch in universal time, and the
fraction. -/
def instant (w : Written) : Int × Nat :=
  (w.localTime.timestamp - 60 * w.zone.minutes, w.nano)

theorem ofClock?_localTime (w : Written) :
    TimeOfDay.ofClock? w.hour w.minute w.second w.nano = some w.localTime.time := by
  have hclock : (w.hour : Nat) < 24 ∧ (w.minute : Nat) < 60 ∧ (w.second : Nat) ≤ 60 ∧
      w.nano < nanosPerSecond := ⟨w.hour.isLt, w.minute.isLt, by omega, w.nano_lt⟩
  rw [TimeOfDay.ofClock?, if_pos hclock, if_neg (Nat.ne_of_lt w.second.isLt)]
  exact w.localTime.time.ofParts?_eq_some

end Written

/-- The text of a zone is read back as its offset. -/
theorem readOffset?_text (z : Zone) :
    PatternItem.readOffset? (PatternItem.cut? ':') true false z.text = some (z.minutes, []) := by
  cases z with
  | universal small => cases small <;> rfl
  | offset behind hours minutes =>
      have hhours2 : (hours : Nat) < 10 ^ 2 := by omega
      have hminutes2 : (minutes : Nat) < 10 ^ 2 := by omega
      have hhours := readExactly?_padded (s := ':' :: padded 2 minutes) Nat.two_pos hhours2
        (endsRun_cons rfl)
      have hminutes := readExactly?_padded (s := []) Nat.two_pos hminutes2 endsRun_nil
      rw [List.append_nil] at hminutes
      have hne := padded_ne_nil 2 (minutes : Nat)
      cases behind <;>
        simp [PatternItem.readOffset?, Zone.text, Zone.minutes, hhours, hminutes, hne,
          PatternItem.cut?]

theorem endsRun_zone (z : Zone) : EndsRun z.text := by
  cases z with
  | universal small => cases small <;> exact endsRun_cons rfl
  | offset behind hours minutes => cases behind <;> exact endsRun_cons rfl

theorem readFraction?_text (w : Written) :
    readFraction? (w.fractionText ++ w.zone.text) = some (w.nano, w.zone.text) := by
  rw [Written.fractionText]
  split
  next hplaces =>
    have hnano : w.nano = 0 := by simp [Written.nano, hplaces, value]
    rw [hnano, List.nil_append]
    cases w.zone with
    | universal small => cases small <;> rfl
    | offset behind hours minutes => cases behind <;> rfl
  next hplaces =>
    have hread := PatternItem.readFraction?_append w.places_digits (endsRun_zone w.zone) hplaces
      w.places_le
    simp only [readFraction?, List.cons_append, hread, Option.map_some, ← Int.natCast_mul,
      Int.toNat_natCast, Written.nano]

theorem readTime?_text (w : Written) :
    readTime? w.clockText = some (w.localTime.time, w.zone.text) := by
  have hrest : EndsRun (w.fractionText ++ w.zone.text) := by
    rw [Written.fractionText]
    split
    · exact endsRun_zone w.zone
    · exact endsRun_cons rfl
  have hhour : (w.hour : Nat) < 10 ^ 2 := by omega
  have hminute : (w.minute : Nat) < 10 ^ 2 := by omega
  have hsecond : (w.second : Nat) < 10 ^ 2 := by omega
  have hh := readExactly?_padded Nat.two_pos hhour (endsRun_cons (c := ':')
    (s := padded 2 w.minute ++ ':' :: (padded 2 w.second ++
      (w.fractionText ++ w.zone.text))) rfl)
  have hm := readExactly?_padded Nat.two_pos hminute (endsRun_cons (c := ':')
    (s := padded 2 w.second ++ (w.fractionText ++ w.zone.text)) rfl)
  have hs := readExactly?_padded Nat.two_pos hsecond hrest
  simp [readTime?, Written.clockText, hh, hm, hs, PatternItem.cut?, readFraction?_text,
    w.ofClock?_localTime]

/-- What is written is read. -/
theorem readLocal?_text (w : Written) : readLocal? w.text = some (w.localTime, w.zone.minutes) := by
  have hmark : w.mark = 'T' ∨ w.mark = 't' ∨ w.mark = ' ' := by simpa using w.mark_mem
  have hrest : EndsRun (w.mark :: w.clockText) := by
    rcases hmark with h | h | h <;> exact endsRun_cons (by rw [h]; rfl)
  have hdate := readDate?_display ⟨w.year_ge, w.year_le⟩ hrest
  have hcut : ((PatternItem.cut? 'T' (w.mark :: w.clockText)).or
      (PatternItem.cut? 't' (w.mark :: w.clockText))).or
        (PatternItem.cut? ' ' (w.mark :: w.clockText)) = some w.clockText := by
    rcases hmark with h | h | h <;> simp [PatternItem.cut?, h]
  have hminutes : w.zone.minutes.natAbs ≤ 23 * 60 + 59 := w.zone.natAbs_minutes_le
  simp [readLocal?, Written.text, hdate, hcut, readTime?_text, readOffset?_text, hminutes,
    Written.localTime]

/-- A written instant is read as the date-time at that instant. -/
theorem parse?_text (w : Written) :
    ∃ t, parse? w.text = some t ∧ (t.timestamp, t.time.nano) = w.instant := by
  have hyear : firstYear < w.date.year ∧ w.date.year < lastYear := by
    have hge := w.year_ge
    have hle := w.year_le
    simp only [firstYear, lastYear]
    omega
  have hminutes := Nat.lt_succ_of_le w.zone.natAbs_minutes_le
  obtain ⟨t, ht, htimestamp, hnano⟩ :=
    DateTime.exists_minusMinutes? (t := w.localTime) w.nano_lt hyear hminutes
  refine ⟨t, ?_, ?_⟩
  · rw [parse?, readLocal?_text, Option.bind_some, ht]
  · rw [htimestamp, hnano]
    rfl

theorem isBlank_of_mem_zone {z : Zone} {c : Char} (h : c ∈ z.text) : isBlank c = false := by
  cases z with
  | universal small =>
      rw [List.mem_singleton.mp h]
      cases small <;> rfl
  | offset behind hours minutes =>
      simp only [Zone.text, List.mem_append, List.mem_cons] at h
      rcases h with (rfl | hdigit) | rfl | hdigit
      · cases behind <;> rfl
      · exact isBlank_of_isDigit (digits_padded _ _ c hdigit)
      · rfl
      · exact isBlank_of_isDigit (digits_padded _ _ c hdigit)

theorem zone_ne_nil (z : Zone) : z.text ≠ [] := by
  cases z <;> simp [Zone.text]

/-- There are no blanks around a written instant. -/
theorem trim_text (w : Written) : trim w.text = w.text := by
  refine trim_of_not_blank (fun c hc => ?_) fun c hc => ?_
  · rw [Written.text, List.head?_append, Option.or_eq_some_iff] at hc
    rcases hc with hc | ⟨hnone, -⟩
    · exact DateTime.isBlank_of_mem_display (t := w.localTime) (.inl (List.mem_of_head? hc))
    · exact absurd (List.head?_eq_none_iff.mp hnone) (DateTime.display_date_ne_nil w.date)
  · obtain ⟨front, htext⟩ : ∃ front, w.text = front ++ w.zone.text :=
      ⟨w.date.display ++ w.mark :: (padded 2 w.hour ++ ':' :: (padded 2 w.minute ++
        ':' :: (padded 2 w.second ++ w.fractionText))), by simp [Written.text, Written.clockText]⟩
    rw [htext, List.getLast?_append, Option.or_eq_some_iff] at hc
    rcases hc with hc | ⟨hnone, -⟩
    · exact isBlank_of_mem_zone (List.mem_of_getLast? hc)
    · exact absurd (List.getLast?_eq_none_iff.mp hnone) (zone_ne_nil w.zone)

end Instant

namespace Operand

open Instant (Written)

/-- A written instant is read whatever the formats are, as the instant that it denotes. -/
theorem coerce_text (formats : List String) (w : Written) :
    ∃ t, coerce formats .dateTime (String.ofList w.text) = .ok (some (.dateTime t)) ∧
      (t.timestamp, t.time.nano) = w.instant := by
  obtain ⟨t, ht, hinstant⟩ := Instant.parse?_text w
  refine ⟨t, ?_, hinstant⟩
  have hne : w.text ≠ [] := by simp [Written.text]
  have hread : dateTime? formats w.text = some t := by
    rw [dateTime?, ht, Option.some_or]
  rw [coerce_ofList hne (by decide), Instant.trim_text, read, hread]
  rfl

/-- **Instants are coerced as they are written.**  Whatever the date formats, the text of an
instant is coerced to its local time less its offset, and texts of the same instant are coerced
to the same value. -/
theorem coerce_instant (formats : List String) (w : Written) :
    (∃ t, coerce formats .dateTime (String.ofList w.text) = .ok (some (.dateTime t)) ∧
      (t.timestamp, t.time.nano) = w.instant) ∧
    ∀ (others : List String) (v : Written), v.instant = w.instant →
      coerce others .dateTime (String.ofList v.text) =
        coerce formats .dateTime (String.ofList w.text) := by
  obtain ⟨t, ht, hinstant⟩ := coerce_text formats w
  refine ⟨⟨t, ht, hinstant⟩, fun others v hv => ?_⟩
  obtain ⟨u, hu, hinstant'⟩ := coerce_text others v
  obtain ⟨htimestamp, hnano⟩ := Prod.mk.inj (hinstant'.trans (hv.trans hinstant.symm))
  rw [ht, hu, DateTime.eq_of_timestamp htimestamp hnano]

/-- Half past eleven on the last evening of the year 9999, an hour behind universal time, where
the next year has begun. -/
def yearEnd : Written where
  date := ⟨9999, 12, 31, by decide, by decide, by decide, by decide⟩
  year_ge := by decide
  year_le := Int.le_refl 9999
  mark := 'T'
  mark_mem := List.mem_cons_self
  hour := ⟨23, by decide⟩
  minute := ⟨30, by decide⟩
  second := ⟨0, by decide⟩
  places := []
  places_digits := nofun
  places_le := Nat.zero_le 9
  zone := .offset true ⟨1, by decide⟩ ⟨0, by decide⟩

/-- The same instant, almost a day behind universal time. -/
def yearEndBehind : Written :=
  { yearEnd with
    hour := ⟨0, by decide⟩
    minute := ⟨31, by decide⟩
    places := padded 3 0
    places_digits := digits_padded 3 0
    places_le := by decide
    zone := .offset true ⟨23, by decide⟩ ⟨59, by decide⟩ }

theorem coerce_yearEnd :
    String.ofList yearEnd.text = "9999-12-31T23:30:00-01:00" ∧
      String.ofList yearEndBehind.text = "9999-12-31T00:31:00.000-23:59" ∧
      yearEndBehind.instant = yearEnd.instant ∧
      (∃ t, coerce [] .dateTime (String.ofList yearEnd.text) = .ok (some (.dateTime t)) ∧
        (t.timestamp, t.time.nano) = yearEnd.instant) ∧
      coerce ["%d.%m.%Y"] .dateTime (String.ofList yearEndBehind.text) =
        coerce [] .dateTime (String.ofList yearEnd.text) := by
  have hinstant : yearEndBehind.instant = yearEnd.instant := rfl
  obtain ⟨hvalue, hsame⟩ := coerce_instant [] yearEnd
  exact ⟨rfl, rfl, hinstant, hvalue, hsame _ yearEndBehind hinstant⟩

end Operand

end FieldRules
