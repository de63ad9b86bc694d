import FieldRules.Proofs.PartsRead
import FieldRules.Proofs.Compilation
import FieldRules.Proofs.DateTexts

/-!
# Written times of day

A text that is read as a date-time keeps the time that is written in it: the hour, the minute
and the second of the result are the numbers that stand in the text.  The midnight of a date
only stands for a text whose pattern does not tell a time of day, because the hour, its half
of the day or the minute is missing, or the second of a fraction; or whose pattern has a
timestamp, which the time can contradict.

**Results.**
* `Fields.shownBy_of_dateTime`: a date-time shows all parts of the clock that are known.
* `Pattern.showsTime_of_dateTime?`: it shows the numbers written in the text.
* `Pattern.exists_dateTime?_of_tellsTime`: a pattern that tells the time needs no midnight.
* `Operand.coerce_keeps_time`: what becomes of the time written in an operand.
-/

namespace FieldRules

open Text

namespace TimeOfDay

variable {hour minute second nano : Nat}

/-- The clock shows the parts of its time. -/
theorem clock_of_ofClock? {t : TimeOfDay} (h : ofClock? hour minute second nano = some t) :
    t.hour = hour ∧ t.minute = minute ∧ t.clockSecond = second := by
  rw [ofClock?] at h
  split at h
  next hclock =>
    obtain ⟨hhour, hminute, hsecond, hnano⟩ := hclock
    split at h
    next hleap =>
      rw [ofParts?] at h
      split at h
      next =>
        cases h
        simp only [TimeOfDay.hour, TimeOfDay.minute, clockSecond, isLeap,
          Nat.le_add_left, decide_true, if_true]
        omega
      next => cases h
    next hleap =>
      rw [ofParts?] at h
      split at h
      next =>
        cases h
        have hbelow : ¬ nanosPerSecond ≤ nano := by omega
        simp only [TimeOfDay.hour, TimeOfDay.minute, clockSecond, isLeap, hbelow, decide_false]
        simp only [Bool.false_eq_true, if_false]
        omega
      next => cases h
  next => cases h

/-- Numbers on the clock show a time. -/
theorem exists_ofClock? (hhour : hour < 24) (hminute : minute < 60) (hsecond : second ≤ 60)
    (hnano : nano < nanosPerSecond) : ∃ t, ofClock? hour minute second nano = some t := by
  rw [ofClock?, if_pos ⟨hhour, hminute, hsecond, hnano⟩]
  split
  next =>
    have hparts : hour * 3600 + minute * 60 + 59 < 86400 ∧
        nano + nanosPerSecond < 2 * nanosPerSecond ∧
        (nanosPerSecond ≤ nano + nanosPerSecond →
          (hour * 3600 + minute * 60 + 59) % 60 = 59) := by omega
    exact ⟨_, dif_pos hparts⟩
  next =>
    have hparts : hour * 3600 + minute * 60 + second < 86400 ∧ nano < 2 * nanosPerSecond ∧
        (nanosPerSecond ≤ nano → (hour * 3600 + minute * 60 + second) % 60 = 59) := by omega
    exact ⟨_, dif_pos hparts⟩

end TimeOfDay

namespace Fields

variable {f g : Fields}

/-- All parts that are known fit on the clock. -/
def OnClock (f : Fields) : Prop :=
  ∀ part v, f part = some v → part.Fits v

theorem onClock_empty : OnClock empty := nofun

theorem Gains.onClock {a b : List Part} (h : Gains a b f g) (hf : f.OnClock) : g.OnClock := by
  intro part v hv
  rcases h.gained part v hv with hv | ⟨-, hfits⟩
  · exact hf part v hv
  · exact hfits

theorem OnClock.toNat_getD_le (hf : f.OnClock) {part : Part} {high : Nat}
    (hhigh : ∀ v, part.Fits v → v ≤ high) : ((f part).getD 0).toNat ≤ high := by
  cases hv : f part with
  | none => simp
  | some v =>
      have hle := hhigh v (hf part v hv)
      rw [Option.getD_some]
      omega

/-- A time shows what is known of the clock, down to the second. -/
structure ShownBy (f : Fields) (t : TimeOfDay) : Prop where
  half : ∀ v, f .half = some v → (t.hour : Int) / 12 = v
  hourOfHalf : ∀ v, f .hourOfHalf = some v → (t.hour : Int) % 12 = v
  minute : ∀ v, f .minute = some v → (t.minute : Int) = v
  second : ∀ v, f .second = some v → (t.clockSecond : Int) = v

theorem ShownBy.of_gains {a b : List Part} {t : TimeOfDay} (h : g.ShownBy t)
    (hgains : Gains a b f g) : f.ShownBy t where
  half v hv := h.half v (hgains.kept _ v hv)
  hourOfHalf v hv := h.hourOfHalf v (hgains.kept _ v hv)
  minute v hv := h.minute v (hgains.kept _ v hv)
  second v hv := h.second v (hgains.kept _ v hv)

/-- A time that parts determine shows them. -/
theorem shownBy_of_time {t : TimeOfDay} (hf : f.OnClock) (h : f.time = .ok t) :
    f.ShownBy t := by
  rw [time] at h
  split at h
  next half hour minute hhalf hhour hminute =>
    split at h
    next => cases h
    next =>
      split at h
      next t' ht =>
        cases h
        obtain ⟨hhour', hminute', hsecond'⟩ := TimeOfDay.clock_of_ofClock? ht
        have hhalfFits := hf _ _ hhalf
        have hhourFits := hf _ _ hhour
        have hminuteFits := hf _ _ hminute
        simp only [Part.Fits] at hhalfFits hhourFits hminuteFits
        refine ⟨fun v hv => ?_, fun v hv => ?_, fun v hv => ?_, fun v hv => ?_⟩
        · rw [hhalf] at hv
          cases hv
          omega
        · rw [hhour] at hv
          cases hv
          omega
        · rw [hminute] at hv
          cases hv
          omega
        · have hsecondFits := hf _ _ hv
          simp only [Part.Fits] at hsecondFits
          rw [hv] at hsecond'
          simp only [Option.getD_some] at hsecond'
          omega
      next => cases h
  next => cases h

theorem fits_minute (t : TimeOfDay) : Part.Fits .minute t.minute := by
  have hclock := t.clock_lt
  simp only [Part.Fits]
  omega

theorem fits_clockSecond (t : TimeOfDay) : Part.Fits .second t.clockSecond := by
  have hclock := t.clock_lt
  simp only [Part.Fits]
  omega

/-- The date and the time at a timestamp are put down beside what is known. -/
theorem gains_of_base {base : DateTime} (h : (do
    let f ← f.put .year base.date.year
    let f ← f.put .ordinal base.date.ordinal
    let f ← f.putHour base.time.hour
    f.put .minute base.time.minute) = some g) : ∃ a b, Gains a b f g := by
  obtain ⟨f1, h1, h⟩ := Option.bind_eq_some_iff.mp h
  obtain ⟨f2, h2, h⟩ := Option.bind_eq_some_iff.mp h
  obtain ⟨f3, h3, h⟩ := Option.bind_eq_some_iff.mp h
  have hdate := (gains_put h1 trivial).trans (gains_put h2 trivial)
  have htime := (gains_putHour h3).trans (gains_put h (fits_minute base.time))
  exact ⟨_, _, hdate.trans htime⟩

/-- The date-time at a timestamp is determined by what is known, and by more. -/
theorem gains_of_dateTimeAt {seconds : Int} {t : DateTime} (h : f.dateTimeAt seconds = .ok t) :
    ∃ a b g, Gains a b f g ∧ g.time = .ok t.time := by
  unfold dateTimeAt at h
  split at h
  · dsimp only at h
    split at h
    next => cases h
    next =>
      split at h
      next base _ =>
        split at h
        next => cases h
        next g hg =>
          obtain ⟨d, _, h⟩ := ok_of_bind h
          obtain ⟨u, hu, h⟩ := ok_of_bind h
          cases h
          split at hg
          next =>
            obtain ⟨a, b, hgains⟩ := gains_of_base hg
            exact ⟨a, b, g, hgains, hu⟩
          next =>
            obtain ⟨k, hk, hg⟩ := Option.bind_eq_some_iff.mp hg
            obtain ⟨a, b, hgains⟩ := gains_of_base hg
            have hsecond := gains_put hk (fits_clockSecond base.time)
            exact ⟨_, _, g, hsecond.trans hgains, hu⟩
      next => cases h
  · cases h

/-- A date-time shows all that is known of the clock. -/
theorem shownBy_of_dateTime {t : DateTime} (hf : f.OnClock) (h : f.dateTime = .ok t) :
    f.ShownBy t.time := by
  rw [dateTime] at h
  split at h
  next _ _ _ htime _ =>
    cases h
    exact shownBy_of_time hf htime
  next _ _ _ _ htime _ =>
    dsimp only at h
    split at h
    next =>
      cases h
      exact shownBy_of_time hf htime
    next => cases h
  next => cases h
  next => cases h
  next =>
    obtain ⟨a, b, g, hgains, htime⟩ := gains_of_dateTimeAt h
    exact (shownBy_of_time (hgains.onClock hf) htime).of_gains hgains
  next => cases h

/-- A half of the day, its hour and a minute determine a time, if a fraction has its
second. -/
theorem exists_time (hf : f.OnClock) (hhalf : (f .half).isSome = true)
    (hhour : (f .hourOfHalf).isSome = true) (hminute : (f .minute).isSome = true)
    (hsecond : (f .nano).isSome = true → (f .second).isSome = true) :
    ∃ t, f.time = .ok t := by
  obtain ⟨half, hhalf⟩ := Option.isSome_iff_exists.mp hhalf
  obtain ⟨hour, hhour⟩ := Option.isSome_iff_exists.mp hhour
  obtain ⟨minute, hminute⟩ := Option.isSome_iff_exists.mp hminute
  have hhalfFits := hf _ _ hhalf
  have hhourFits := hf _ _ hhour
  have hminuteFits := hf _ _ hminute
  simp only [Part.Fits] at hhalfFits hhourFits hminuteFits
  have hsecond' : ((f .second).getD 0).toNat ≤ 60 := hf.toNat_getD_le fun _ hv => hv.2
  have hnano' : ((f .nano).getD 0).toNat ≤ 999999999 := hf.toNat_getD_le fun _ hv => hv.2
  have hcomplete : ((f .second).isNone && (f .nano).isSome) = false := by
    cases hs : f .second with
    | none =>
        rw [hs] at hsecond
        simpa using hsecond
    | some v => rfl
  obtain ⟨t, ht⟩ := @TimeOfDay.exists_ofClock? (12 * half + hour).toNat minute.toNat _ _
    (by omega) (by omega) hsecond' (Nat.lt_succ_of_le hnano')
  refine ⟨t, ?_⟩
  simp [time, hhalf, hhour, hminute, hcomplete, ht]

theorem putIn_self {low high v : Int} {part : Part} (h : f.putIn low high part v = some g) :
    g part = some v := by
  rw [putIn] at h
  split at h
  next => exact put_self h
  next => cases h

theorem putHour_self {v : Int} (h : f.putHour v = some g) :
    (0 ≤ v ∧ v ≤ 23) ∧ g .half = some (v / 12) ∧ g .hourOfHalf = some (v % 12) := by
  rw [putHour] at h
  split at h
  next hv =>
    obtain ⟨k, hk, h⟩ := Option.bind_eq_some_iff.mp h
    exact ⟨hv, (put_of_ne h (by decide)).trans (put_self hk), put_self h⟩
  next => cases h

end Fields

open Fields (Gains)

namespace PatternItem

/-- The number that an item reads off a text.  The halves of the day are 0 and 1. -/
def number? : PatternItem → List Char → Option Int
  | .number q, s => (q.readSigned? (trimStart s)).map Prod.fst
  | .meridiem, s => (readMeridiem? s).map Prod.fst
  | _, _ => none

/-- What a clock shows at a time in the place of an item, where the item has one on it. -/
def shown? (t : TimeOfDay) : PatternItem → Option Int
  | .number .hour => some t.hour
  | .number .hour12 => some ((t.hour + 11) % 12 + 1)
  | .number .minute => some t.minute
  | .number .second => some t.clockSecond
  | .meridiem => some (t.hour / 12)
  | _ => none

/-- If a time shows what is known in the end, the number that an item reads is the one that
the clock shows. -/
theorem number?_of_shownBy {item : PatternItem} {r r' : Reading} {f : Fields} {a b : List Part}
    {t : TimeOfDay} {w : Int} (hscan : item.scan r = some r') (hgains : Gains a b r'.1 f)
    (ht : f.ShownBy t) (hw : item.shown? t = some w) : item.number? r.2 = some w := by
  have hshown := ht.of_gains hgains
  cases item with
  | number q =>
      obtain ⟨v, rest, hread, hstore⟩ := Quantity.exists_of_scan hscan
      rw [number?, hread]
      refine congrArg some ?_
      cases q with
      | hour =>
          cases hw
          obtain ⟨hv, hhalf, hhour⟩ := Fields.putHour_self hstore
          have h1 := hshown.half _ hhalf
          have h2 := hshown.hourOfHalf _ hhour
          dsimp only
          omega
      | hour12 =>
          cases hw
          rw [Quantity.store] at hstore
          split at hstore
          next hv =>
            have h1 := hshown.hourOfHalf _ (Fields.put_self hstore)
            dsimp only
            omega
          next => cases hstore
      | minute =>
          cases hw
          exact (hshown.minute _ (Fields.putIn_self hstore)).symm
      | second =>
          cases hw
          exact (hshown.second _ (Fields.putIn_self hstore)).symm
      | _ => cases hw
  | meridiem =>
      cases hw
      obtain ⟨n, hn, hkeep⟩ := Option.bind_eq_some_iff.mp hscan
      obtain ⟨g, hg, hr'⟩ := Option.map_eq_some_iff.mp hkeep
      subst hr'
      rw [number?, hn]
      exact congrArg some (hshown.half _ (Fields.put_self hg)).symm
  | _ => cases hw

end PatternItem

namespace Pattern

theorem exists_of_scan_append {before after : Pattern} {item : PatternItem} {r r' : Reading}
    (h : scan r (before ++ item :: after) = some r') :
    ∃ r1 r2, scan r before = some r1 ∧ item.scan r1 = some r2 ∧ scan r2 after = some r' := by
  induction before generalizing r with
  | nil =>
      obtain ⟨r2, hr2, h⟩ := Option.bind_eq_some_iff.mp h
      exact ⟨r, r2, rfl, hr2, h⟩
  | cons first before ih =>
      obtain ⟨r0, hr0, h⟩ := Option.bind_eq_some_iff.mp h
      obtain ⟨r1, r2, h1, h2, hafter⟩ := ih h
      exact ⟨r1, r2, by rw [scan_cons, hr0, Option.bind_some, h1], h2, hafter⟩

/-- Whether a text says a number in the place of an item of a pattern. -/
def Says (p : Pattern) (s : List Char) (item : PatternItem) (v : Int) : Prop :=
  ∃ before after r, p = before ++ item :: after ∧
    scan (Fields.empty, s) before = some r ∧ item.number? r.2 = some v

/-- Whether a time is the one that is written in a text: wherever the pattern asks for a
number of the clock, the text says the number that the clock shows, and no other. -/
def ShowsTime (p : Pattern) (s : List Char) (t : TimeOfDay) : Prop :=
  ∀ item ∈ p, ∀ w, item.shown? t = some w → ∀ v, p.Says s item v ↔ v = w

/-- Whether every text of a pattern determines a time of day, with no timestamp besides. -/
def TellsTime (p : Pattern) : Prop :=
  .half ∈ p.certain ∧ .hourOfHalf ∈ p.certain ∧ .minute ∈ p.certain ∧
    (.nano ∈ p.possible → .second ∈ p.certain) ∧ .timestamp ∉ p.possible

instance (p : Pattern) : Decidable p.TellsTime :=
  inferInstanceAs (Decidable (_ ∧ _))

/-- A text says at an item what is known after the item. -/
theorem says_of_scan {before after : Pattern} {s : List Char} {item : PatternItem} {v : Int}
    (h : ((scan (Fields.empty, s) before).bind fun r => item.number? r.2) = some v) :
    Says (before ++ item :: after) s item v := by
  obtain ⟨r, hr, hv⟩ := Option.bind_eq_some_iff.mp h
  exact ⟨before, after, r, rfl, hr, hv⟩

/-- A time at which the clock shows another number than the one written is not the one
written. -/
theorem not_showsTime {p : Pattern} {s : List Char} {t : TimeOfDay} {item : PatternItem}
    {v w : Int} (hsaid : p.Says s item v) (hw : item.shown? t = some w) (hne : v ≠ w) :
    ¬ p.ShowsTime s t := by
  intro hshows
  obtain ⟨before, after, r, hp, -, -⟩ := id hsaid
  have hitem : item ∈ p := by simp [hp]
  exact hne ((hshows item hitem w hw v).mp hsaid)

theorem scan_of_fields? {p : Pattern} {s : List Char} {f : Fields} (h : p.fields? s = some f) :
    scan (Fields.empty, s) p = some (f, []) := by
  rw [fields?] at h
  split at h
  next g hscan =>
    cases h
    exact hscan
  next => cases h

section Format

variable {format : String} {p : Pattern} (hformat : ofText? format = some p)
include hformat

theorem fields?_gains {s : List Char} {f : Fields} (h : p.fields? s = some f) :
    Gains p.possible p.certain Fields.empty f :=
  scan_gains (proper_of_ofText? hformat) (scan_of_fields? h)

/-- A text that is read as a date-time has its time written in it. -/
theorem showsTime_of_dateTime? {s : List Char} {t : DateTime} (h : p.dateTime? s = some t) :
    p.ShowsTime s t.time := by
  obtain ⟨f, hf, hdateTime⟩ := Option.bind_eq_some_iff.mp h
  have hshown : f.ShownBy t.time := by
    refine Fields.shownBy_of_dateTime ((fields?_gains hformat hf).onClock Fields.onClock_empty) ?_
    cases hresult : f.dateTime with
    | error e =>
        rw [hresult] at hdateTime
        cases hdateTime
    | ok u =>
        rw [hresult] at hdateTime
        cases hdateTime
        rfl
  have hplace : ∀ before item after, p = before ++ item :: after → ∀ w,
      item.shown? t.time = some w →
      ∃ r, scan (Fields.empty, s) before = some r ∧ item.number? r.2 = some w := by
    intro before item after hp w hw
    have hafter : ∀ i ∈ after, i.Proper := by
      intro i hi
      refine proper_of_ofText? hformat i ?_
      rw [hp]
      exact List.mem_append_right _ (List.mem_cons_of_mem _ hi)
    have hscan := scan_of_fields? hf
    rw [hp] at hscan
    obtain ⟨r1, r2, h1, h2, h3⟩ := exists_of_scan_append hscan
    exact ⟨r1, h1, PatternItem.number?_of_shownBy h2 (scan_gains hafter h3) hshown hw⟩
  intro item hitem w hw v
  constructor
  · rintro ⟨before, after, r, hp, hr, hv⟩
    obtain ⟨r', hr', hw'⟩ := hplace before item after hp w hw
    rw [hr] at hr'
    cases hr'
    rw [hv] at hw'
    exact Option.some.inj hw'
  · rintro rfl
    obtain ⟨before, after, hp⟩ := List.append_of_mem hitem
    obtain ⟨r, hr, hv⟩ := hplace before item after hp v hw
    exact ⟨before, after, r, hp, hr, hv⟩

/-- A text of a pattern that tells the time is read as a date-time if it is read as a date. -/
theorem exists_dateTime?_of_tellsTime {s : List Char} {d : Date} (hp : p.TellsTime)
    (h : p.date? s = some d) : ∃ t, p.dateTime? s = some t := by
  obtain ⟨hhalf, hhour, hminute, hsecond, htimestamp⟩ := hp
  obtain ⟨f, hf, hdate⟩ := Option.bind_eq_some_iff.mp h
  have hgains := fields?_gains hformat hf
  have hpossible : ∀ part, (f part).isSome = true → part ∈ p.possible := by
    intro part hpart
    obtain ⟨v, hv⟩ := Option.isSome_iff_exists.mp hpart
    rcases hgains.gained part v hv with hempty | hv
    · cases hempty
    · exact hv.1
  obtain ⟨t, ht⟩ := Fields.exists_time (hgains.onClock Fields.onClock_empty)
    (hgains.known _ hhalf) (hgains.known _ hhour) (hgains.known _ hminute)
    fun hnano => hgains.known _ (hsecond (hpossible _ hnano))
  have hnone : f .timestamp = none := by
    cases hv : f .timestamp with
    | none => rfl
    | some v => exact absurd (hpossible _ (by rw [hv]; rfl)) htimestamp
  cases hd : f.date with
  | error e =>
      rw [hd] at hdate
      cases hdate
  | ok d' =>
      refine ⟨⟨d', t⟩, ?_⟩
      rw [dateTime?, hf, Option.bind_some, Fields.dateTime, hd, ht, hnone]
      rfl

end Format

end Pattern

namespace Operand

theorem firstDateTime?_eq (s : List Char) (formats : List String) :
    firstDateTime? s formats = formats.findSome? (dateTimeUnder? · s) := by
  induction formats with
  | nil => rfl
  | cons format formats ih =>
      rw [firstDateTime?, List.findSome?_cons, ih]
      cases dateTimeUnder? format s <;> rfl

theorem dateTime?_of_coerce {formats : List String} {raw : String} {t : DateTime}
    (h : coerce formats .dateTime raw = .ok (some (.dateTime t))) :
    dateTime? formats (trim raw.toList) = some t := by
  have hraw : raw ≠ "" := by
    rintro rfl
    cases h
  rw [coerce_trim hraw (by decide), read] at h
  split at h
  next u hu =>
    cases h
    exact hu
  next => cases h

/-- **What becomes of a written time of day.**  An operand that is no instant is read by the
first format that reads it.  If that format reads a date-time, its time is the one written in
the operand.  Only where the format does not tell the time of day is the operand read as a
date, which stands for its midnight. -/
theorem coerce_keeps_time {formats : List String} {raw : String} {t : DateTime}
    (hlocal : Instant.parse? (trim raw.toList) = none)
    (h : coerce formats .dateTime raw = .ok (some (.dateTime t))) :
    ∃ skipped format later p, formats = skipped ++ format :: later ∧
      (∀ other ∈ skipped, dateTimeUnder? other (trim raw.toList) = none) ∧
      Pattern.ofText? format = some p ∧
      (p.dateTime? (trim raw.toList) = some t ∧ p.ShowsTime (trim raw.toList) t.time ∨
        p.dateTime? (trim raw.toList) = none ∧ p.date? (trim raw.toList) = some t.date ∧
          t.time = TimeOfDay.midnight ∧ ¬ p.TellsTime) := by
  have hread := dateTime?_of_coerce h
  rw [dateTime?, hlocal, Option.none_or, firstDateTime?_eq,
    List.findSome?_eq_some_iff] at hread
  obtain ⟨skipped, format, later, hformats, hformat, hskipped⟩ := hread
  obtain ⟨p, hp, hunder⟩ := Option.bind_eq_some_iff.mp hformat
  refine ⟨skipped, format, later, p, hformats, hskipped, hp, ?_⟩
  rcases Option.or_eq_some_iff.mp hunder with hdateTime | ⟨hnone, hdate⟩
  · exact .inl ⟨hdateTime, Pattern.showsTime_of_dateTime? hp hdateTime⟩
  · obtain ⟨d, hd, rfl⟩ := Option.map_eq_some_iff.mp hdate
    refine .inr ⟨hnone, hd, rfl, fun htells => ?_⟩
    obtain ⟨u, hu⟩ := Pattern.exists_dateTime?_of_tellsTime hp htells hd
    rw [hnone] at hu
    cases hu

/-- Whether a format with an hour reads an operand as a date-time at which the clock does not
show what is written. -/
def DropsTime (format raw : String) : Prop :=
  ∃ p t, Pattern.ofText? format = some p ∧ (.number .hour ∈ p ∨ .number .hour12 ∈ p) ∧
    Instant.parse? (trim raw.toList) = none ∧
    coerce [format] .dateTime raw = .ok (some (.dateTime t)) ∧
    ¬ p.ShowsTime (trim raw.toList) t.time

end Operand

namespace Launch

def day : Date :=
  ⟨2024, 2, 29, by decide, by decide, by decide, by decide⟩

/-- The launch is at half past two in the afternoon, fifteen and a half seconds later. -/
def start : DateTime :=
  ⟨day, ⟨52215, 500000000, by decide, by decide, by decide⟩⟩

def formats : List String := ["%d.%m.%Y %H:%M", "%d.%m.%Y %T%.f"]

def written : List Char := "29.02.2024 14:30:15.5".toList

/-- The launch with its zone behind a blank, where no instant has one. -/
def zoned : List Char := "2024-02-29T14:30:15.5 utc".toList

/-- The first format leaves the seconds over, and the second one keeps the time.  So does the
specifier of a date, a time and a zone, which shows the hour that is written. -/
theorem coerce_start :
    (Instant.parse? (trim written) = none ∧
      Operand.coerce formats .dateTime "29.02.2024 14:30:15.5" = .ok (some (.dateTime start)) ∧
      ∃ skipped format later p, formats = skipped ++ format :: later ∧
        (∀ other ∈ skipped, Operand.dateTimeUnder? other (trim written) = none) ∧
        Pattern.ofText? format = some p ∧
        (p.dateTime? (trim written) = some start ∧ p.ShowsTime (trim written) start.time ∨
          p.dateTime? (trim written) = none ∧ p.date? (trim written) = some start.date ∧
            start.time = TimeOfDay.midnight ∧ ¬ p.TellsTime)) ∧
      Instant.parse? (trim zoned) = none ∧
      Operand.coerce ["%+"] .dateTime "2024-02-29T14:30:15.5 utc" =
        .ok (some (.dateTime start)) ∧
      ∃ p, Pattern.ofText? "%+" = some p ∧ p.TellsTime ∧ p.ShowsTime (trim zoned) start.time ∧
        p.Says (trim zoned) (.number .hour) 14 := by
  have hlocal : Instant.parse? (trim written) = none := rfl
  have hread : Operand.coerce formats .dateTime "29.02.2024 14:30:15.5" =
      .ok (some (.dateTime start)) := rfl
  have hlocal' : Instant.parse? (trim zoned) = none := rfl
  have hread' : Operand.coerce ["%+"] .dateTime "2024-02-29T14:30:15.5 utc" =
      .ok (some (.dateTime start)) := rfl
  refine ⟨⟨hlocal, hread, Operand.coerce_keeps_time hlocal hread⟩, hlocal', hread', ?_⟩
  obtain ⟨skipped, format, later, p, hformats, -, hp, hshows⟩ :=
    Operand.coerce_keeps_time hlocal' hread'
  obtain rfl : "%+" = format := by
    have hmem : format ∈ ["%+"] := by simp [hformats]
    exact (List.mem_singleton.mp hmem).symm
  obtain rfl : Pattern.instant = p := Option.some.inj hp
  have htells : Pattern.instant.TellsTime := by decide
  have hshown : Pattern.instant.ShowsTime (trim zoned) start.time := by
    rcases hshows with ⟨-, hshown⟩ | ⟨-, -, -, hincomplete⟩
    · exact hshown
    · exact absurd htells hincomplete
  exact ⟨_, hp, htells, hshown, (hshown (.number .hour) (by decide) 14 rfl 14).mpr rfl⟩

/-- The items of a date before a time. -/
def dated : Pattern :=
  [.number .year, .literal '-', .number .month, .literal '-', .number .day, .blank]

/-- Without a minute, without the half of the day, with a fraction but no second, or against a
timestamp, the hour in an operand is dropped. -/
theorem drops_incomplete :
    Operand.DropsTime "%Y-%m-%d %H" "2024-02-29 14" ∧
      Operand.DropsTime "%Y-%m-%d %I:%M" "2024-02-29 02:30" ∧
      Operand.DropsTime "%Y-%m-%d %H:%M%.f" "2024-02-29 14:30.5" ∧
      Operand.DropsTime "%Y-%m-%d %H:%M %s" "2024-02-29 14:30 5" := by
  have hminute : Pattern.Says (dated ++ [.number .hour]) (trim "2024-02-29 14".toList)
      (.number .hour) 14 := Pattern.says_of_scan rfl
  have hhalf : Pattern.Says (dated ++ [.number .hour12, .literal ':', .number .minute])
      (trim "2024-02-29 02:30".toList) (.number .hour12) 2 := Pattern.says_of_scan rfl
  have hsecond : Pattern.Says (dated ++ [.number .hour, .literal ':', .number .minute, .fraction])
      (trim "2024-02-29 14:30.5".toList) (.number .hour) 14 := Pattern.says_of_scan rfl
  have htimestamp : Pattern.Says
      (dated ++ [.number .hour, .literal ':', .number .minute, .blank, .number .timestamp])
      (trim "2024-02-29 14:30 5".toList) (.number .hour) 14 := Pattern.says_of_scan rfl
  refine ⟨⟨_, .ofDate day, rfl, by decide, rfl, rfl, ?_⟩,
    ⟨_, .ofDate day, rfl, by decide, rfl, rfl, ?_⟩,
    ⟨_, .ofDate day, rfl, by decide, rfl, rfl, ?_⟩,
    ⟨_, .ofDate day, rfl, by decide, rfl, rfl, ?_⟩⟩
  · exact Pattern.not_showsTime hminute rfl (by decide)
  · exact Pattern.not_showsTime hhalf rfl (by decide)
  · exact Pattern.not_showsTime hsecond rfl (by decide)
  · exact Pattern.not_showsTime htimestamp rfl (by decide)

end Launch

end FieldRules
