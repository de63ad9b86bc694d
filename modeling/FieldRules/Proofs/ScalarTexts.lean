import FieldRules.Proofs.IntegerTexts
import FieldRules.Proofs.Readability
import Mathlib.Data.List.TakeWhile

/-!
# Texts of scalars

The texts of integers, decimals, truth values and members of enumerations read back, also with
blanks around them.  A decimal keeps its scale, because a reader of at most 28 places and of a
coefficient in range never rounds.  Only the sign of a zero is lost, and a zero can have a sign:
a negative number whose digits an exponent moves behind the last place leaves one.

**Results.**
* `Text.trim_padded`: the blanks around a text are trimmed.
* `Decimal.scan_digits`: digits are read as they stand while there is room for them.
* `Decimal.parse_display`: the text of a decimal reads back, but for the sign of a zero.
* `Operand.coerce_padded`: the texts of scalars are coerced to these scalars.
-/

namespace FieldRules

open Text

namespace Text

/-- All characters are blanks. -/
def Blanks (s : List Char) : Prop :=
  ∀ c ∈ s, isBlank c = true

/-- A text is not empty and has no blanks around it. -/
structure Bare (s : List Char) : Prop where
  ne_nil : s ≠ []
  head : ∀ c, s.head? = some c → isBlank c = false
  last : ∀ c, s.getLast? = some c → isBlank c = false

theorem Bare.of_forall {s : List Char} (hne : s ≠ []) (h : ∀ c ∈ s, isBlank c = false) :
    Bare s :=
  ⟨hne, fun c hc => h c (List.mem_of_head? hc), fun c hc => h c (List.mem_of_getLast? hc)⟩

theorem trimStart_append {before : List Char} (hbefore : Blanks before) (s : List Char) :
    trimStart (before ++ s) = trimStart s :=
  List.dropWhile_append_of_pos hbefore

theorem trimStart_bare {s : List Char} (hne : s ≠ [])
    (hhead : ∀ c, s.head? = some c → isBlank c = false) (t : List Char) :
    trimStart (s ++ t) = s ++ t := by
  obtain ⟨c, s, rfl⟩ := List.exists_cons_of_ne_nil hne
  exact trimStart_cons_of_not_blank _ (hhead c rfl)

/-- The blanks around a text are trimmed. -/
theorem trim_padded {before s after : List Char} (hbefore : Blanks before) (hs : Bare s)
    (hafter : Blanks after) : trim (before ++ s ++ after) = s := by
  have hreverse : Blanks after.reverse := fun c hc => hafter c (List.mem_reverse.mp hc)
  have hlast : ∀ c, s.reverse.head? = some c → isBlank c = false := fun c hc =>
    hs.last c (by rwa [List.head?_reverse] at hc)
  have hback : trimStart s.reverse = s.reverse := by
    simpa using trimStart_bare (List.reverse_ne_nil_iff.mpr hs.ne_nil) hlast []
  rw [trim, List.append_assoc, trimStart_append hbefore, trimStart_bare hs.ne_nil hs.head,
    List.reverse_append, trimStart_append hreverse, hback, List.reverse_reverse]

end Text

namespace Decimal

/-- Where a reading stands after some digits. -/
def Progress.pushAll (p : Progress) (ds : List Char) : Progress :=
  ds.foldl (fun p c => p.push (digit c)) p

namespace Progress

theorem coefficient_pushAll (p : Progress) (ds : List Char) :
    (p.pushAll ds).coefficient = Nat.ofDigitChars 10 ds p.coefficient := by
  induction ds generalizing p with
  | nil => rfl
  | cons c ds ih => exact (ih (p.push (digit c))).trans Nat.ofDigitChars_cons.symm

theorem point_pushAll (p : Progress) (ds : List Char) : (p.pushAll ds).point = p.point := by
  induction ds generalizing p with
  | nil => rfl
  | cons c ds ih => exact ih (p.push (digit c))

/-- Behind the point every digit takes one place. -/
theorem scale_pushAll (p : Progress) (ds : List Char) :
    (p.pushAll ds).scale = if p.point then p.scale + ds.length else p.scale := by
  induction ds generalizing p with
  | nil => simp [pushAll]
  | cons c ds ih =>
      have hpoint : (p.push (digit c)).point = p.point := rfl
      rw [pushAll, List.foldl_cons, ← pushAll, ih, hpoint]
      cases hp : p.point with
      | false => simp [push, hp]
      | true =>
          simp only [push, hp, if_true, List.length_cons]
          omega

theorem seen_pushAll {p : Progress} {ds : List Char} (h : p.seen = true ∨ ds ≠ []) :
    (p.pushAll ds).seen = true := by
  induction ds generalizing p with
  | nil => exact h.resolve_right fun hne => hne rfl
  | cons c ds ih => exact ih (.inl rfl)

end Progress

/-- A digit is read as it stands while there is room for all that follows behind the point, and
the coefficient stays in range. -/
theorem scan_digit {p : Progress} {c : Char} {cs : List Char} (hc : c.isDigit = true)
    (hroom : p.point = true → p.scale + (cs.length + 1) ≤ maxScale)
    (hlimit : 10 * p.coefficient + digit c < coefficientLimit) :
    scan p (c :: cs) = scan (p.push (digit c)) cs := by
  have hfull : p.isFull = false := by
    cases hp : p.point with
    | false => simp [Progress.isFull, hp]
    | true =>
        have hscale := hroom hp
        simp only [Progress.isFull, hp, Bool.true_and, decide_eq_false_iff_not]
        omega
  have hwide : (p.wide && decide (coefficientLimit ≤ (p.push (digit c)).coefficient)) = false := by
    have hbelow : ¬ coefficientLimit ≤ (p.push (digit c)).coefficient := Nat.not_le.mpr hlimit
    simp [hbelow]
  have hnext : ((p.push (digit c)).isFull && !p.wide && !cs.isEmpty) = false := by
    cases hp : p.point with
    | false => simp [Progress.isFull, Progress.push, hp]
    | true =>
        cases cs with
        | nil => simp
        | cons d cs =>
            have hscale := hroom hp
            have hopen : ¬ maxScale ≤ (p.push (digit c)).scale := by
              simp only [Progress.push, hp, if_true, List.length_cons] at hscale ⊢
              omega
            simp [Progress.isFull, hopen]
  rw [scan]
  simp only [hc, if_true, hfull, hwide, hnext, Bool.false_eq_true, if_false]

/-- Digits are read as they stand while there is room for them. -/
theorem scan_digits {p : Progress} {ds s : List Char} (hds : Digits ds)
    (hroom : p.point = true → p.scale + (ds ++ s).length ≤ maxScale)
    (hlimit : Nat.ofDigitChars 10 ds p.coefficient < coefficientLimit) :
    scan p (ds ++ s) = scan (p.pushAll ds) s := by
  induction ds generalizing p with
  | nil => rfl
  | cons c ds ih =>
      have hc : c.isDigit = true := hds c List.mem_cons_self
      have hvalue : Nat.ofDigitChars 10 (c :: ds) p.coefficient =
          Nat.ofDigitChars 10 ds (10 * p.coefficient + digit c) := Nat.ofDigitChars_cons
      rw [hvalue] at hlimit
      have hfirst := Nat.lt_of_le_of_lt (le_ofDigitChars ds _) hlimit
      rw [List.cons_append, scan_digit hc (by simpa using hroom) hfirst]
      refine ih (fun d hd => hds d (List.mem_cons_of_mem _ hd)) (fun hp => ?_) hlimit
      have hscale := hroom hp
      have hpoint : p.point = true := hp
      simp only [Progress.push, hpoint, if_true, List.cons_append, List.length_cons] at hscale ⊢
      omega

/-- A numeral in front of a text is read as the coefficient so far. -/
theorem scan_numeral {n : Nat} (hn : n < coefficientLimit) :
    ∃ p : Progress, (∀ s, scan {} (numeral n ++ s) = scan p s) ∧ p.seen = true ∧
      p.point = false ∧ p.scale = 0 ∧ p.coefficient = n := by
  have hvalue : Nat.ofDigitChars 10 (numeral n) 0 = n := value_numeral n
  refine ⟨Progress.pushAll {} (numeral n), fun s => ?_,
    Progress.seen_pushAll (.inr (numeral_ne_nil n)), Progress.point_pushAll {} (numeral n),
    Progress.scale_pushAll {} (numeral n), (Progress.coefficient_pushAll {} _).trans hvalue⟩
  exact scan_digits (digits_numeral n) nofun (hvalue.symm ▸ hn)

/-- Behind the point, as many places as there are end a decimal of that scale. -/
theorem scan_places {p : Progress} {count n : Nat} (hcount : 0 < count ∧ count ≤ maxScale)
    (hn : n < placeValue count) (hseen : p.seen = true) (hpoint : p.point = true)
    (hscale : p.scale = 0) (hlimit : placeValue count * p.coefficient + n < coefficientLimit) :
    scan p (padded count n) = .ok (placeValue count * p.coefficient + n, count) := by
  have hlength : (padded count n).length = count := length_padded hcount.1 hn
  have hvalue : Nat.ofDigitChars 10 (padded count n) p.coefficient =
      placeValue count * p.coefficient + n := by
    rw [Nat.ofDigitChars_eq_ofDigitChars_zero, hlength, ← value, value_padded]
    rfl
  have hread : scan p (padded count n ++ []) = scan (p.pushAll (padded count n)) [] := by
    refine scan_digits (digits_padded count n) (fun _ => ?_) (hvalue ▸ hlimit)
    rw [List.append_nil, hlength, hscale, Nat.zero_add]
    exact hcount.2
  rw [List.append_nil] at hread
  rw [hread, scan, Progress.seen_pushAll (.inl hseen), Progress.coefficient_pushAll, hvalue,
    Progress.scale_pushAll, hpoint, hlength, hscale, if_pos rfl, if_pos rfl, Nat.zero_add]

/-- The digits of a decimal are read as its coefficient and its scale. -/
theorem scan_magnitudeText (d : Decimal) :
    scan {} d.magnitudeText = .ok (d.coefficient, d.scale) := by
  have hquotient : d.coefficient / placeValue d.scale < coefficientLimit :=
    Nat.lt_of_le_of_lt (Nat.div_le_self _ _) d.coefficient_lt
  obtain ⟨p, hscan, hseen, hpoint, hscale, hcoefficient⟩ := scan_numeral hquotient
  rw [magnitudeText_eq, hscan, placesText]
  split
  next hzero =>
    rw [hzero, placeValue_zero, Nat.div_one] at hcoefficient
    simp [scan, hseen, hcoefficient, hscale, hzero]
  next hzero =>
    have hmark : scan p ('.' :: padded d.scale (d.coefficient % placeValue d.scale)) =
        scan { p with point := true } (padded d.scale (d.coefficient % placeValue d.scale)) := by
      rw [scan]
      simp [hpoint]
    have hcount : 0 < d.scale ∧ d.scale ≤ maxScale :=
      ⟨Nat.pos_of_ne_zero hzero, Nat.le_of_lt_succ d.scale_lt⟩
    have hparts : placeValue d.scale * p.coefficient + d.coefficient % placeValue d.scale =
        d.coefficient := hcoefficient ▸ Nat.div_add_mod d.coefficient (placeValue d.scale)
    have hplaces : scan { p with point := true }
        (padded d.scale (d.coefficient % placeValue d.scale)) =
          .ok (placeValue d.scale * p.coefficient + d.coefficient % placeValue d.scale, d.scale) :=
      scan_places hcount (Nat.mod_lt _ (placeValue_pos d.scale)) hseen rfl hscale
        (hparts.symm ▸ d.coefficient_lt)
    rw [hmark, hplaces, hparts]

/-- A decimal, with a zero of the same scale in place of a zero with a sign. -/
def withoutZeroSign (d : Decimal) : Decimal :=
  if d.coefficient = 0 then ofParts false 0 d.scale else d

theorem ofParts_eq_withoutZeroSign (d : Decimal) :
    ofParts (d.negative && d.coefficient != 0) d.coefficient d.scale = d.withoutZeroSign := by
  rw [withoutZeroSign]
  split
  next hzero => simp [hzero]
  next hzero =>
    obtain ⟨negative, coefficient, scale, hcoefficient, hscale⟩ := d
    have hsign : (negative && coefficient != 0) = negative := by simpa using fun _ => hzero
    simp only [ofParts, hsign, Nat.mod_eq_of_lt hcoefficient, Nat.mod_eq_of_lt hscale]

theorem parsePlain_digits {c : Char} (hc : c.isDigit = true) (cs : List Char) :
    parsePlain (c :: cs) = (scan {} (c :: cs)).map fun r => ofParts false r.1 r.2 := by
  rw [parsePlain]
  · exact List.cons_ne_nil c cs
  · rintro _ h
    rw [(List.cons.inj h).1] at hc
    cases hc
  · rintro _ h
    rw [(List.cons.inj h).1] at hc
    cases hc

theorem magnitudeText_eq_cons (d : Decimal) :
    ∃ c cs, d.magnitudeText = c :: cs ∧ c.isDigit = true := by
  obtain ⟨c, cs, hcs⟩ := List.exists_cons_of_ne_nil
    (numeral_ne_nil (d.coefficient / placeValue d.scale))
  refine ⟨c, cs ++ d.placesText, by rw [magnitudeText_eq, hcs, List.cons_append], ?_⟩
  exact digits_numeral _ c (hcs ▸ List.mem_cons_self)

theorem display_ne_nil (d : Decimal) : d.display ≠ [] := by
  obtain ⟨c, cs, htext, -⟩ := d.magnitudeText_eq_cons
  rw [display, htext]
  split
  · exact List.cons_ne_nil _ _
  · exact List.cons_ne_nil _ _

/-- The text of a decimal reads back, but for the sign of a zero. -/
theorem parse_display (d : Decimal) : parse d.display = .ok d.withoutZeroSign := by
  have hmark : ∀ c ∈ d.display, (!isExponentMark c) = true := by
    intro c hc
    rcases mem_display hc with hdigit | rfl | rfl
    · have hsmall : c ≠ 'e' := by
        rintro rfl
        cases hdigit
      have hcapital : c ≠ 'E' := by
        rintro rfl
        cases hdigit
      simp [isExponentMark, hsmall, hcapital]
    · rfl
    · rfl
  rw [parse, List.dropWhile_eq_nil_iff.mpr hmark, ← ofParts_eq_withoutZeroSign, display]
  cases d.negative with
  | true => simp [parsePlain, scan_magnitudeText, Except.map]
  | false =>
      obtain ⟨c, cs, htext, hc⟩ := d.magnitudeText_eq_cons
      have hplain := parsePlain_digits hc cs
      rw [← htext, scan_magnitudeText] at hplain
      simp [hplain, Except.map]

end Decimal

/-- A value, with a zero of the same scale in place of a zero with a sign. -/
def Value.withoutZeroSign : Value → Value
  | .decimal d => .decimal d.withoutZeroSign
  | v => v

/-- The scalars of a type: all integers, decimals and truth values, and the members of an
enumeration that have no blanks around them. -/
inductive FieldType.HasScalar : FieldType → Value → Prop
  | int (n : Int64) : HasScalar .int (.int n)
  | decimal (d : Decimal) : HasScalar .decimal (.decimal d)
  | bool (b : Bool) : HasScalar .bool (.bool b)
  | member {e : EnumType} {name : String} :
      name ∈ e.members → Bare name.toList → HasScalar (.enum e) (.member name)

namespace Operand

variable {type : FieldType} {v : Value}

theorem bare_of_characters {s : List Char} (hne : s ≠ [])
    (h : ∀ c ∈ s, c.isDigit = true ∨ c = '.' ∨ c = '-') : Bare s := by
  refine .of_forall hne fun c hc => ?_
  rcases h c hc with hdigit | rfl | rfl
  · exact isBlank_of_isDigit hdigit
  · rfl
  · rfl

theorem bare_display (h : type.HasScalar v) : Bare v.display.toList := by
  cases h with
  | int n =>
      rw [Value.display, String.toList_ofList]
      refine bare_of_characters (Integer.display_ne_nil _) fun c hc => ?_
      exact (Integer.mem_display hc).imp_right .inr
  | decimal d =>
      rw [Value.display, String.toList_ofList]
      exact bare_of_characters d.display_ne_nil fun c hc => Decimal.mem_display hc
  | bool b =>
      have hall : (Value.bool b).display.toList.all (!isBlank ·) = true := by
        cases b <;> rfl
      refine .of_forall ?_ fun c hc => ?_
      · cases b <;> exact List.cons_ne_nil _ _
      · simpa using List.all_eq_true.mp hall c hc
  | member _ hname => exact hname

/-- The text of a scalar is read as the scalar, but for the sign of a zero. -/
theorem read_display (formats : List String) (h : type.HasScalar v) :
    read formats v.display.toList type = .ok v.withoutZeroSign := by
  cases h with
  | int n =>
      rw [Value.display, String.toList_ofList, read, Integer.parse_display]
      simp [Value.withoutZeroSign]
  | decimal d =>
      rw [Value.display, String.toList_ofList, read, Decimal.parse_display]
      rfl
  | bool b => cases b <;> rfl
  | member hmember _ =>
      rw [Value.display, read, String.ofList_toList, if_pos hmember]
      rfl

/-- **Displayed scalars coerce back to themselves.**  Whatever blanks stand around the text of a
scalar, the text is coerced to the scalar; only a zero with a sign is coerced to the zero of the
same scale without it. -/
theorem coerce_padded {before after : List Char} (formats : List String)
    (h : type.HasScalar v) (hbefore : Blanks before) (hafter : Blanks after) :
    coerce formats type (String.ofList (before ++ v.display.toList ++ after)) =
      .ok (some v.withoutZeroSign) := by
  have hbare := bare_display h
  have hne : before ++ v.display.toList ++ after ≠ [] := by simp [hbare.ne_nil]
  have htype : type ≠ .text := by
    rintro rfl
    cases h
  rw [coerce_ofList hne htype, trim_padded hbefore hbare hafter, read_display formats h]
  rfl

/-- The negative decimal with the greatest coefficient and all its places. -/
def deepest : Decimal := .ofParts true 79228162514264337593543950335 28

theorem coerce_deepest :
    FieldType.HasScalar .decimal (.decimal deepest) ∧
      Blanks [' ', '\u00a0'] ∧ Blanks ['\u3000'] ∧
      coerce [] .decimal (String.ofList
        ([' ', '\u00a0'] ++ (Value.decimal deepest).display.toList ++ ['\u3000'])) =
        .ok (some (Value.decimal deepest).withoutZeroSign) ∧
      (Value.decimal deepest).withoutZeroSign = .decimal deepest := by
  have hscalar : FieldType.HasScalar .decimal (.decimal deepest) := .decimal deepest
  have hbefore : Blanks [' ', '\u00a0'] := List.all_eq_true.mp rfl
  have hafter : Blanks ['\u3000'] := List.all_eq_true.mp rfl
  exact ⟨hscalar, hbefore, hafter, coerce_padded [] hscalar hbefore hafter, rfl⟩

/-- A negative number whose digits an exponent moves behind the last place leaves a zero with a
sign, and the text of that zero is coerced to another one. -/
theorem coerce_negativeZero :
    ∃ d : Decimal, coerce [] .decimal "-0.1e-28" = .ok (some (.decimal d)) ∧
      (Value.decimal d).display = "-0.0000000000000000000000000000" ∧
      coerce [] .decimal (Value.decimal d).display ≠ .ok (some (.decimal d)) := by
  refine ⟨.ofParts true 0 28, rfl, rfl, fun h => ?_⟩
  have hzero : coerce [] .decimal (Value.decimal (.ofParts true 0 28)).display =
      .ok (some (.decimal (.ofParts false 0 28))) := rfl
  rw [hzero] at h
  cases h

end Operand

end FieldRules
