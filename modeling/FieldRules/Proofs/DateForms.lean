import FieldRules.Proofs.Leavings
import FieldRules.Proofs.WrittenTimes
import Mathlib.Data.List.DropRight

/-!
# Default date forms

The form of instants and the five default formats never read the same text.  Two of the formats
have slashes where the others and the form of instants have dashes.  Forms with the same date
differ in what they want behind it: nothing, a `T`, or an hour after any blanks; and an instant
goes on with an offset where the time of a format ends.  So the order in which the formats are
tried makes no difference.

**Results.**
* `Pattern.Leaves.firstMark?`: what separates the first number of a pattern from the next one.
* `Instant.behind_date`, `Instant.behind_time`: what a pattern makes of the parts of an instant.
* `Pattern.pairwise_defaults`: no text is used up by two default patterns.
* `Operand.pairwise_forms`: no text is read in two of the default forms.
* `Operand.coerce_perm`: the order of the default formats makes no difference.
-/

namespace FieldRules

open Text

namespace Text

/-- The first character of a text that is no digit, after any blanks in front. -/
def firstMark? (s : List Char) : Option Char :=
  ((trimStart s).dropWhile Char.isDigit).head?

/-- The mark behind leading digits is the first mark of a text. -/
theorem firstMark?_of_digits {s ds rest : List Char} {c : Char} (hds : Digits ds)
    (hc : c.isDigit = false) (h : trimStart s = ds ++ c :: rest) : firstMark? s = some c := by
  rw [firstMark?, h, List.dropWhile_append_of_pos hds]
  simp [hc]

end Text

namespace Pattern

variable {items : Pattern} {q : Quantity} {s t rest : List Char}

/-- Between a number and what follows it stands a literal, unless the number has a sign. -/
theorem Leaves.firstMark? {c : Char} (hc : c.isDigit = false)
    (h : Leaves (.number q :: .literal c :: items) s rest) :
    Text.firstMark? s = some c ∨
      q.isSigned = true ∧ (Text.firstMark? s = some '-' ∨ Text.firstMark? s = some '+') := by
  obtain ⟨t, hnumber, h⟩ := h.cons
  obtain ⟨u, hliteral, -⟩ := h.cons
  obtain rfl := hliteral.literal
  rcases hnumber.number with ⟨ds, htrim, hds, -⟩ | ⟨hsigned, d, r, htrim, hd⟩
  · exact .inl (firstMark?_of_digits hds hc htrim)
  · have hnil : Digits [] := fun d hd => nomatch hd
    refine .inr ⟨hsigned, ?_⟩
    rcases hd with rfl | rfl
    · exact .inl (firstMark?_of_digits hnil rfl htrim)
    · exact .inr (firstMark?_of_digits hnil rfl htrim)

/-- A number without a sign is found behind blanks only if a digit stands there. -/
theorem Leaves.digit_of_blank (hq : q.isSigned = false)
    (h : Leaves (.blank :: .number q :: items) s rest) :
    ∃ d u, trimStart s = d :: u ∧ d.isDigit = true := by
  obtain ⟨t, hblank, h⟩ := h.cons
  obtain rfl := hblank.blank
  obtain ⟨t, hnumber, -⟩ := h.cons
  rcases hnumber.number with ⟨ds, htrim, hds, hne⟩ | ⟨hsigned, -⟩
  · obtain ⟨d, ds', rfl⟩ := List.exists_cons_of_ne_nil hne
    rw [trimStart, trimStart, List.dropWhile_idempotent] at htrim
    exact ⟨d, ds' ++ t, htrim, hds d List.mem_cons_self⟩
  · rw [hq] at hsigned
    cases hsigned

/-- A date with dashes: year, month and day. -/
def dashed : Pattern :=
  [.number .year, .literal '-', .number .month, .literal '-', .number .day]

/-- A date with slashes: month, day and year. -/
def slashed : Pattern :=
  [.number .month, .literal '/', .number .day, .literal '/', .number .year]

/-- A time of day and a fraction. -/
def fineClock : Pattern :=
  clock .hour ++ [.fraction]

/-- The default patterns with dashes. -/
def dashedForms : List Pattern :=
  [dashed ++ .literal 'T' :: fineClock, dashed ++ .blank :: fineClock, dashed]

/-- The default patterns with slashes. -/
def slashedForms : List Pattern :=
  [slashed ++ .blank :: clock .hour, slashed]

theorem ofText?_dateFormats :
    ({} : Options).dateFormats.map ofText? = (dashedForms ++ slashedForms).map some := rfl

/-- All patterns with dashes begin with the date. -/
theorem prefix_of_mem_dashedForms {p : Pattern} (hp : p ∈ dashedForms) : dashed <+: p := by
  simp only [dashedForms, List.mem_cons, List.not_mem_nil, or_false] at hp
  rcases hp with rfl | rfl | rfl
  · exact List.prefix_append _ _
  · exact List.prefix_append _ _
  · exact List.prefix_refl _

theorem prefix_of_mem_slashedForms {p : Pattern} (hp : p ∈ slashedForms) : slashed <+: p := by
  simp only [slashedForms, List.mem_cons, List.not_mem_nil, or_false] at hp
  rcases hp with rfl | rfl
  · exact List.prefix_append _ _
  · exact List.prefix_refl _

/-- Where a date with dashes is read, a dash stands first, or the sign of its year. -/
theorem firstMark?_dashed (h : Leaves (dashed ++ items) s rest) :
    firstMark? s = some '-' ∨ firstMark? s = some '+' := by
  rcases Leaves.firstMark? rfl h with hmark | ⟨-, hmark⟩
  · exact .inl hmark
  · exact hmark

theorem firstMark?_slashed (h : Leaves (slashed ++ items) s rest) : firstMark? s = some '/' := by
  rcases Leaves.firstMark? rfl h with hmark | ⟨hsigned, -⟩
  · exact hmark
  · cases hsigned

/-- A date with dashes is no date with slashes. -/
theorem not_slashed_of_dashed {more : Pattern} {u : List Char}
    (h : Leaves (dashed ++ items) s rest) : ¬ Leaves (slashed ++ more) s u := by
  intro h'
  have hslash := firstMark?_slashed h'
  rcases firstMark?_dashed h with hmark | hmark
  · rw [hmark] at hslash
    cases hslash
  · rw [hmark] at hslash
    cases hslash

/-- What a date leaves does not begin with a `T` if an hour is found there. -/
theorem not_blank_of_literal {p more : Pattern} {u : List Char}
    (h : Leaves (p ++ .literal 'T' :: items) s rest) :
    ¬ Leaves (p ++ .blank :: .number .hour :: more) s u := by
  intro h'
  obtain ⟨t, hp, hmark⟩ := h.append
  obtain ⟨v, hliteral, -⟩ := hmark.cons
  obtain rfl := hliteral.literal
  obtain ⟨d, w, htrim, hd⟩ := (hp.behind h').digit_of_blank rfl
  rw [trimStart_cons_of_not_blank v rfl] at htrim
  cases htrim
  cases hd

/-- A date that uses up a text leaves no `T` and no hour. -/
theorem not_literal_of_end {p : Pattern} {c : Char} (h : Leaves p s []) :
    ¬ Leaves (p ++ .literal c :: items) s rest := by
  intro h'
  obtain ⟨v, hliteral, -⟩ := (h.behind h').cons
  cases hliteral.literal

/-- A pattern that ends with a text cannot be followed by an hour in it. -/
theorem not_blank_of_end {p : Pattern} (h : Leaves p s []) :
    ¬ Leaves (p ++ .blank :: .number .hour :: items) s rest := by
  intro h'
  obtain ⟨d, w, htrim, -⟩ := (h.behind h').digit_of_blank rfl
  cases htrim

/-- No text is used up by two default patterns. -/
theorem pairwise_defaults (s : List Char) :
    (dashedForms ++ slashedForms).Pairwise fun p q => ¬ (Leaves p s [] ∧ Leaves q s []) := by
  refine List.pairwise_append.mpr ⟨?_, ?_, ?_⟩
  · simp only [dashedForms, List.pairwise_cons, List.forall_mem_cons, List.not_mem_nil, not_and]
    exact ⟨⟨not_blank_of_literal, fun h h' => not_literal_of_end h' h, nofun⟩,
      ⟨fun h h' => not_blank_of_end h' h, nofun⟩, nofun, .nil⟩
  · simp only [slashedForms, List.pairwise_cons, List.forall_mem_cons, List.not_mem_nil, not_and]
    exact ⟨⟨fun h h' => not_blank_of_end h' h, nofun⟩, nofun, .nil⟩
  · rintro p hp q hq ⟨h, h'⟩
    obtain ⟨items, rfl⟩ := prefix_of_mem_dashedForms hp
    obtain ⟨more, rfl⟩ := prefix_of_mem_slashedForms hq
    exact not_slashed_of_dashed h h'

end Pattern

namespace Instant

open Pattern

variable {s t rest : List Char} {items : Pattern} {date : Date} {time : TimeOfDay}

/-- What a pattern makes of the text behind the date of an instant. -/
theorem behind_date (hread : readDate? s = some (date, t))
    (h : Leaves (dashed ++ items) s rest) : Leaves items t rest := by
  simp only [readDate?, Option.bind_eq_bind, Option.bind_eq_some_iff] at hread
  obtain ⟨⟨year, s1⟩, hyear, s2, hdash, ⟨month, s3⟩, hmonth, s4, hdash', ⟨day, s5⟩, hday, d, -,
    hread⟩ := hread
  cases hread
  have h1 := Leaves.behind_number h rfl (Nat.succ_pos 3) hyear
  have h2 := (h1.behind_literal hdash).behind_number rfl (Nat.succ_pos 1) hmonth
  exact (h2.behind_literal hdash').behind_number rfl (Nat.succ_pos 1) hday

/-- The date of an instant has a dash as its first mark. -/
theorem firstMark?_of_readDate? (hread : readDate? s = some (date, t)) :
    firstMark? s = some '-' := by
  simp only [readDate?, Option.bind_eq_bind, Option.bind_eq_some_iff] at hread
  obtain ⟨⟨year, s1⟩, hyear, s2, hdash, -⟩ := hread
  obtain rfl : s1 = '-' :: s2 := PatternItem.cut?_eq_some hdash
  obtain ⟨ds, hs, hds, -⟩ := readExactly?_eq_some hyear
  have htrim := trimStart_of_readExactly? (Nat.succ_pos 3) hyear
  exact firstMark?_of_digits hds rfl (htrim.trans hs)

/-- A fraction of a pattern leaves the same text as that of an instant. -/
theorem behind_fraction {nano : Nat} (hread : readFraction? s = some (nano, t))
    (h : Leaves (.fraction :: items) s rest) : Leaves items t rest := by
  obtain ⟨u, hfraction, h⟩ := h.cons
  obtain ⟨f, g, hscan⟩ := hfraction.of_item
  suffices hu : u = t from hu ▸ h
  rw [readFraction?.eq_def] at hread
  dsimp only [PatternItem.scan] at hscan
  split at hread
  next r =>
    obtain ⟨n, hn, hread⟩ := Option.map_eq_some_iff.mp hread
    obtain ⟨n', hn', hscan⟩ := Option.bind_eq_some_iff.mp hscan
    obtain ⟨k, -, hk⟩ := Option.map_eq_some_iff.mp hscan
    cases hread
    cases hk
    rw [hn] at hn'
    cases hn'
    rfl
  next hs =>
    cases hread
    split at hscan
    next r => exact absurd rfl (hs r)
    next =>
      cases hscan
      rfl

/-- What a pattern makes of the text behind the time of an instant. -/
theorem behind_time (hread : readTime? s = some (time, t))
    (h : Leaves (fineClock ++ items) s rest) : Leaves items t rest := by
  simp only [readTime?, Option.bind_eq_bind, Option.bind_eq_some_iff] at hread
  obtain ⟨⟨hour, s1⟩, hhour, s2, hcolon, ⟨minute, s3⟩, hminute, s4, hcolon', ⟨second, s5⟩, hsecond,
    ⟨nano, s6⟩, hnano, t', -, hread⟩ := hread
  cases hread
  have h1 := Leaves.behind_number h rfl (Nat.succ_pos 1) hhour
  have h2 := (h1.behind_literal hcolon).behind_number rfl (Nat.succ_pos 1) hminute
  have h3 := (h2.behind_literal hcolon').behind_number rfl (Nat.succ_pos 1) hsecond
  exact behind_fraction hnano h3

theorem trimStart_of_readTime? (hread : readTime? s = some (time, t)) : trimStart s = s := by
  simp only [readTime?, Option.bind_eq_bind, Option.bind_eq_some_iff] at hread
  obtain ⟨⟨hour, s1⟩, hhour, -⟩ := hread
  exact trimStart_of_readExactly? (Nat.succ_pos 1) hhour

/-- The parts of an instant: a date, a mark, a time, and an offset, which is not empty. -/
theorem exists_parts {v : DateTime} (h : parse? s = some v) :
    ∃ date mark u time w, readDate? s = some (date, mark :: u) ∧
      (mark = 'T' ∨ mark = 't' ∨ mark = ' ') ∧ readTime? u = some (time, w) ∧ w ≠ [] := by
  obtain ⟨r, hlocal, -⟩ := Option.bind_eq_some_iff.mp h
  simp only [readLocal?, Option.bind_eq_bind, Option.bind_eq_some_iff] at hlocal
  obtain ⟨⟨date, t⟩, hdate, u, hmark, ⟨time, w⟩, htime, ⟨offset, rest⟩, hoffset, -⟩ := hlocal
  have hw : w ≠ [] := by
    rintro rfl
    cases hoffset
  rcases Option.or_eq_some_iff.mp hmark with hmark | ⟨-, hmark⟩
  · rcases Option.or_eq_some_iff.mp hmark with hmark | ⟨-, hmark⟩
    · obtain rfl := PatternItem.cut?_eq_some hmark
      exact ⟨date, 'T', u, time, w, hdate, .inl rfl, htime, hw⟩
    · obtain rfl := PatternItem.cut?_eq_some hmark
      exact ⟨date, 't', u, time, w, hdate, .inr (.inl rfl), htime, hw⟩
  · obtain rfl := PatternItem.cut?_eq_some hmark
    exact ⟨date, ' ', u, time, w, hdate, .inr (.inr rfl), htime, hw⟩

/-- An instant is used up by no default pattern. -/
theorem not_leaves_of_parse? {v : DateTime} {p : Pattern} (h : parse? s = some v)
    (hp : p ∈ dashedForms ++ slashedForms) : ¬ Leaves p s [] := by
  obtain ⟨date, mark, u, time, w, hdate, hmark, htime, hw⟩ := exists_parts h
  have hended : ¬ Leaves fineClock u [] := by
    intro hleaves
    have hnil : Leaves [] w [] := behind_time htime hleaves
    exact hw hnil.eq_of_nil.symm
  intro hleaves
  rcases List.mem_append.mp hp with hp | hp
  · simp only [dashedForms, List.mem_cons, List.not_mem_nil, or_false] at hp
    rcases hp with rfl | rfl | rfl
    · obtain ⟨t, hliteral, htimed⟩ := (behind_date hdate hleaves).cons
      cases hliteral.literal
      exact hended htimed
    · have hbehind := behind_date hdate hleaves
      obtain ⟨d, r, htrim, hd⟩ := Leaves.digit_of_blank rfl hbehind
      rcases hmark with rfl | rfl | rfl
      · rw [trimStart_cons_of_not_blank u rfl] at htrim
        cases htrim
        cases hd
      · rw [trimStart_cons_of_not_blank u rfl] at htrim
        cases htrim
        cases hd
      · obtain ⟨t, hblank, htimed⟩ := hbehind.cons
        have hskip : trimStart (' ' :: u) = trimStart u := rfl
        rw [hblank.blank, hskip, trimStart_of_readTime? htime] at htimed
        exact hended htimed
    · have hnil : Leaves [] (mark :: u) [] := behind_date hdate hleaves
      cases hnil.eq_of_nil
  · obtain ⟨items, rfl⟩ := prefix_of_mem_slashedForms hp
    have hslash := firstMark?_slashed hleaves
    rw [firstMark?_of_readDate? hdate] at hslash
    cases hslash

end Instant

/-- If at most one member gives a result, the order of the members does not matter. -/
theorem findSome?_perm {α β : Type} {f : α → Option β} {l l' : List α} (h : l.Perm l')
    (hpairs : l.Pairwise fun a b => f a = none ∨ f b = none) :
    l.findSome? f = l'.findSome? f := by
  induction h with
  | nil => rfl
  | cons a h ih =>
      rw [List.findSome?_cons, List.findSome?_cons, ih (List.pairwise_cons.mp hpairs).2]
  | swap a b l =>
      have hab := (List.pairwise_cons.mp hpairs).1 a List.mem_cons_self
      simp only [List.findSome?_cons]
      rcases hab with hb | ha
      · rw [hb]
      · rw [ha]
  | trans h h' ih ih' =>
      have hsymm : ∀ {a b}, f a = none ∨ f b = none → f b = none ∨ f a = none := Or.symm
      exact (ih hpairs).trans (ih' ((h.pairwise_iff hsymm).mp hpairs))

namespace Operand

/-- The ways in which a text is read as a date-time, in the order in which they are tried. -/
def forms (formats : List String) : List (List Char → Option DateTime) :=
  Instant.parse? :: formats.map dateTimeUnder?

/-- The forms of date-times are tried one after another. -/
theorem dateTime?_eq (formats : List String) (s : List Char) :
    dateTime? formats s = (forms formats).findSome? (· s) := by
  rw [dateTime?, firstDateTime?_eq, forms, List.findSome?_cons, List.findSome?_map]
  cases Instant.parse? s <;> rfl

theorem exists_leaves {format : String} {s : List Char} {t : DateTime}
    (h : dateTimeUnder? format s = some t) :
    ∃ p, Pattern.ofText? format = some p ∧ p.Leaves s [] := by
  obtain ⟨p, hp, h⟩ := Option.bind_eq_some_iff.mp h
  refine ⟨p, hp, ?_⟩
  rcases Option.or_eq_some_iff.mp h with hdateTime | ⟨-, hdate⟩
  · obtain ⟨f, hf, -⟩ := Option.bind_eq_some_iff.mp hdateTime
    exact Pattern.leaves_of_fields? hf
  · obtain ⟨d, hd, -⟩ := Option.map_eq_some_iff.mp hdate
    obtain ⟨f, hf, -⟩ := Option.bind_eq_some_iff.mp hd
    exact Pattern.leaves_of_fields? hf

/-- No text is both an instant and read by a default format. -/
theorem eq_none_of_instant {format : String} {s : List Char} {v : DateTime}
    (hformat : format ∈ ({} : Options).dateFormats) (h : Instant.parse? s = some v) :
    dateTimeUnder? format s = none := by
  cases hread : dateTimeUnder? format s with
  | none => rfl
  | some t =>
      obtain ⟨p, hp, hleaves⟩ := exists_leaves hread
      have hmem : some p ∈ (Pattern.dashedForms ++ Pattern.slashedForms).map some := by
        rw [← Pattern.ofText?_dateFormats, ← hp]
        exact List.mem_map_of_mem hformat
      obtain ⟨q, hq, hqp⟩ := List.mem_map.mp hmem
      cases hqp
      exact absurd hleaves (Instant.not_leaves_of_parse? h hq)

/-- No text is read by two default formats. -/
theorem pairwise_dateTimeUnder? (s : List Char) :
    ({} : Options).dateFormats.Pairwise fun format format' =>
      dateTimeUnder? format s = none ∨ dateTimeUnder? format' s = none := by
  have hpatterns : (({} : Options).dateFormats.map Pattern.ofText?).Pairwise fun o o' =>
      ∀ p q, o = some p → o' = some q → ¬ (p.Leaves s [] ∧ q.Leaves s []) := by
    rw [Pattern.ofText?_dateFormats, List.pairwise_map]
    refine (Pattern.pairwise_defaults s).imp fun hpq p q hp hq => ?_
    cases hp
    cases hq
    exact hpq
  refine (List.pairwise_map.mp hpatterns).imp fun {format format'} hdisjoint => ?_
  cases hread : dateTimeUnder? format s with
  | none => exact .inl rfl
  | some t =>
      cases hread' : dateTimeUnder? format' s with
      | none => exact .inr rfl
      | some t' =>
          obtain ⟨p, hp, hleaves⟩ := exists_leaves hread
          obtain ⟨q, hq, hleaves'⟩ := exists_leaves hread'
          exact absurd ⟨hleaves, hleaves'⟩ (hdisjoint p q hp hq)

/-- No text is read in two of the default forms. -/
theorem pairwise_forms (s : List Char) :
    (forms ({} : Options).dateFormats).Pairwise fun r r' => r s = none ∨ r' s = none := by
  rw [forms, List.pairwise_cons, List.pairwise_map]
  refine ⟨fun r hr => ?_, pairwise_dateTimeUnder? s⟩
  obtain ⟨format, hformat, rfl⟩ := List.mem_map.mp hr
  cases hparse : Instant.parse? s with
  | none => exact .inl rfl
  | some v => exact .inr (eq_none_of_instant hformat hparse)

section Reordered

variable {formats : List String} (hformats : formats.Perm ({} : Options).dateFormats)
include hformats

/-- No two of the forms that are tried read one text. -/
theorem pairwise_forms_of_perm (s : List Char) :
    (forms formats).Pairwise fun r r' => r s = none ∨ r' s = none := by
  have hforms : (forms ({} : Options).dateFormats).Perm (forms formats) :=
    (hformats.symm.map dateTimeUnder?).cons Instant.parse?
  exact (hforms.pairwise_iff Or.symm).mp (pairwise_forms s)

/-- The order of the default formats makes no difference to the date-time that is read. -/
theorem dateTime?_of_perm (s : List Char) :
    dateTime? formats s = dateTime? ({} : Options).dateFormats s := by
  rw [dateTime?_eq, dateTime?_eq]
  exact findSome?_perm ((hformats.map dateTimeUnder?).cons Instant.parse?)
    (pairwise_forms_of_perm hformats s)

theorem coerce_cases_of_perm (raw : String) :
    (∃ v, coerce formats .dateTime raw = .ok v ∧
        coerce ({} : Options).dateFormats .dateTime raw = .ok v) ∨
      (coerce formats .dateTime raw = .error (.dateTime formats) ∧
        coerce ({} : Options).dateFormats .dateTime raw =
          .error (.dateTime ({} : Options).dateFormats)) := by
  by_cases hraw : raw = ""
  · subst hraw
    exact .inl ⟨none, rfl, rfl⟩
  · have htype : FieldType.dateTime ≠ .text := nofun
    rw [coerce_trim hraw htype, coerce_trim hraw htype, read, read, dateTime?_of_perm hformats]
    cases dateTime? ({} : Options).dateFormats (trim raw.toList) with
    | none => exact .inr ⟨rfl, rfl⟩
    | some t => exact .inl ⟨some (.dateTime t), rfl, rfl⟩

/-- **The default date forms never compete.**  In whatever order the default formats are tried,
an operand has the same value, or it has none and only the formats in the error are listed in
another order; for no text is read in two of the forms, be it as a date-time or as a date. -/
theorem coerce_perm :
    (∀ raw v, coerce formats .dateTime raw = .ok v ↔
        coerce ({} : Options).dateFormats .dateTime raw = .ok v) ∧
      (∀ raw e, coerce formats .dateTime raw = .error e ↔
        e = .dateTime formats ∧ coerce ({} : Options).dateFormats .dateTime raw =
          .error (.dateTime ({} : Options).dateFormats)) ∧
      ∀ s, (forms formats).Pairwise fun r r' => r s = none ∨ r' s = none := by
  refine ⟨fun raw v => ?_, fun raw e => ?_, pairwise_forms_of_perm hformats⟩
  · rcases coerce_cases_of_perm hformats raw with ⟨w, h, h'⟩ | ⟨h, h'⟩
    · rw [h, h']
    · rw [h, h']
      exact ⟨nofun, nofun⟩
  · rcases coerce_cases_of_perm hformats raw with ⟨w, h, h'⟩ | ⟨h, h'⟩
    · rw [h, h']
      exact ⟨nofun, fun he => nomatch he.2⟩
    · rw [h, h']
      exact ⟨fun he => ⟨(Except.error.inj he).symm, rfl⟩, fun he => he.1 ▸ rfl⟩

end Reordered

/-- With the default formats in the opposite order, the text of a launch still denotes it. -/
theorem coerce_reversed :
    ({} : Options).dateFormats.reverse.Perm ({} : Options).dateFormats ∧
      coerce ({} : Options).dateFormats.reverse .dateTime "2024-02-29 14:30:15.500" =
        .ok (some (.dateTime Launch.start)) := by
  have hperm := List.reverse_perm ({} : Options).dateFormats
  have hread : coerce ({} : Options).dateFormats .dateTime "2024-02-29 14:30:15.500" =
      .ok (some (.dateTime Launch.start)) := rfl
  exact ⟨hperm, ((coerce_perm hperm).1 _ _).mpr hread⟩

end Operand
end FieldRules
