import FieldRules.Proofs.Numerals
import FieldRules.Schema.Operand
import Mathlib.Logic.Basic

/-!
# Texts of integers

An integer is written with at most one sign and one or more digits.  Its digits are read one
by one, and the reading ends at the first number that is out of range or at the first
character that is no digit, whichever comes first: what is reported is settled by the longest
run of digits behind the sign.

**Results.**
* `Integer.readDigits_eq`: the digit loop on any text.
* `Integer.parse_eq`: what becomes of a text.
* `Integer.parse_display`: the text of an integer reads back.
* `Operand.coerce_int`: which operands are integers, and why the others are not.
-/

namespace FieldRules

open Text

/-- Reading digits onto a number does not make it smaller. -/
theorem Text.le_ofDigitChars (ds : List Char) (m : Nat) : m ≤ Nat.ofDigitChars 10 ds m := by
  induction ds generalizing m with
  | nil => simp
  | cons c ds ih =>
      rw [Nat.ofDigitChars_cons]
      have hrest := ih (10 * m + (c.toNat - '0'.toNat))
      omega

namespace Integer

/-- A number with a sign. -/
def signed (negative : Bool) (m : Nat) : Int :=
  if negative then -(m : Int) else m

/-- The greatest number that may stand behind a sign. -/
def greatest (negative : Bool) : Nat :=
  if negative then 9223372036854775808 else 9223372036854775807

/-- What is reported of a number out of range. -/
def overflow (negative : Bool) : IntegerError :=
  if negative then .tooSmall else .tooLarge

/-- One digit more, if the number stays in range. -/
theorem readDigits_cons {negative : Bool} {m : Nat} {c : Char} {cs : List Char}
    (hc : c.isDigit = true) :
    readDigits negative (signed negative m) (c :: cs) =
      if greatest negative < 10 * m + digit c then .error (overflow negative)
      else readDigits negative (signed negative (10 * m + digit c)) cs := by
  cases negative with
  | false =>
      by_cases hrange : greatest false < 10 * m + digit c
      · have hbeyond : highest < 10 * (m : Int) + digit c := by
          simp only [greatest, highest, Bool.false_eq_true, if_false] at hrange ⊢
          omega
        rw [if_pos hrange, readDigits, if_pos hc, if_neg Bool.false_ne_true]
        exact if_pos hbeyond
      · have hwithin : 10 * (m : Int) + digit c ≤ highest := by
          simp only [greatest, highest, Bool.false_eq_true, if_false] at hrange ⊢
          omega
        rw [if_neg hrange]
        exact readDigits_nonneg m c cs hc hwithin
  | true =>
      have hnumber : 10 * -(m : Int) - digit c = -((10 * m + digit c : Nat) : Int) := by omega
      by_cases hrange : greatest true < 10 * m + digit c
      · have hbeyond : 10 * -(m : Int) - digit c < lowest := by
          simp only [greatest, lowest, if_true] at hrange ⊢
          omega
        rw [if_pos hrange, readDigits, if_pos hc, if_pos rfl]
        exact if_pos hbeyond
      · have hwithin : lowest ≤ 10 * -(m : Int) - digit c := by
          simp only [greatest, lowest, if_true] at hrange ⊢
          omega
        rw [if_neg hrange]
        exact (readDigits_neg (-m) c cs hc hwithin).trans (by rw [hnumber]; rfl)

/-- The run of digits at the front of a text decides whether it is out of range; only then it
counts whether something else follows. -/
theorem readDigits_eq (negative : Bool) {m : Nat} (hm : m ≤ greatest negative)
    (cs : List Char) :
    readDigits negative (signed negative m) cs =
      if greatest negative < Nat.ofDigitChars 10 (run cs) m then .error (overflow negative)
      else if run cs = cs then .ok (signed negative (Nat.ofDigitChars 10 cs m))
      else .error .invalidDigit := by
  induction cs generalizing m with
  | nil => simp [readDigits, run, Nat.not_lt.mpr hm]
  | cons c cs ih =>
      by_cases hc : c.isDigit = true
      · have hrun : run (c :: cs) = c :: run cs := by simp [run, hc]
        have hvalue : ∀ ds, Nat.ofDigitChars 10 (c :: ds) m =
            Nat.ofDigitChars 10 ds (10 * m + digit c) := fun ds => Nat.ofDigitChars_cons
        have hrest : c :: run cs = c :: cs ↔ run cs = cs := by simp
        rw [readDigits_cons hc, hrun, hvalue, hvalue, if_congr hrest rfl rfl]
        by_cases hrange : greatest negative < 10 * m + digit c
        · have hbeyond := Nat.lt_of_lt_of_le hrange (le_ofDigitChars (run cs) (10 * m + digit c))
          rw [if_pos hrange, if_pos hbeyond]
        · rw [if_neg hrange, ih (Nat.le_of_not_lt hrange)]
      · have hrun : run (c :: cs) = [] := by simp [run, hc]
        have hstop : readDigits negative (signed negative m) (c :: cs) = .error .invalidDigit := by
          simp [readDigits, hc]
        rw [hstop, hrun, Nat.ofDigitChars_nil, if_neg (Nat.not_lt.mpr hm),
          if_neg (List.cons_ne_nil c cs).symm]

/-- Whether a text begins with a minus sign. -/
def isNegative (s : List Char) : Bool :=
  s.head? == some '-'

/-- A text without its sign, if it has one. -/
def unsigned : List Char → List Char
  | '-' :: cs => cs
  | '+' :: cs => cs
  | cs => cs

/-- The integer that the longest run of digits behind the sign denotes. -/
def leading (s : List Char) : Int :=
  signed (isNegative s) (value (run (unsigned s)))

/-- A text begins with a minus sign, or with a plus sign, or is the same without its sign. -/
theorem sign_cases (s : List Char) :
    (∃ cs, s = '-' :: cs) ∨ (∃ cs, s = '+' :: cs) ∨ isNegative s = false ∧ unsigned s = s := by
  cases s with
  | nil => exact .inr (.inr ⟨rfl, rfl⟩)
  | cons c cs =>
      by_cases hminus : c = '-'
      · exact .inl ⟨cs, by rw [hminus]⟩
      · by_cases hplus : c = '+'
        · exact .inr (.inl ⟨cs, by rw [hplus]⟩)
        · exact .inr (.inr ⟨by simp [isNegative, hminus], by simp [unsigned, hminus, hplus]⟩)

theorem unsigned_digits {ds : List Char} (hds : Digits ds) :
    isNegative ds = false ∧ unsigned ds = ds := by
  rcases sign_cases ds with ⟨cs, rfl⟩ | ⟨cs, rfl⟩ | h
  · cases hds '-' List.mem_cons_self
  · cases hds '+' List.mem_cons_self
  · exact h

theorem run_digits {ds : List Char} (hds : Digits ds) : run ds = ds := by
  simpa using run_append hds endsRun_nil

theorem parse_of_ne_nil {s : List Char} (hs : s ≠ []) :
    parse s = readMagnitude (isNegative s) (unsigned s) := by
  rcases sign_cases s with ⟨cs, rfl⟩ | ⟨cs, rfl⟩ | ⟨hsign, hrest⟩
  · rfl
  · rfl
  · rw [hsign, hrest, parse]
    · exact hs
    · rintro cs rfl
      cases hsign
    · rintro cs rfl
      simp [unsigned] at hrest

/-- The leading digits decide whether a number is in range; only then it matters whether
anything else follows. -/
theorem readMagnitude_eq (negative : Bool) (cs : List Char) :
    readMagnitude negative cs =
      if greatest negative < value (run cs) then .error (overflow negative)
      else if cs ≠ [] ∧ run cs = cs then .ok (signed negative (value (run cs)))
      else .error .invalidDigit := by
  cases cs with
  | nil => simp [readMagnitude, run, value]
  | cons c cs =>
      have hzero : signed negative 0 = 0 := by cases negative <;> rfl
      have hloop := readDigits_eq negative (Nat.zero_le (greatest negative)) (c :: cs)
      rw [hzero] at hloop
      rw [readMagnitude, hloop]
      · by_cases hrest : run (c :: cs) = c :: cs
        · simp [hrest, value]
        · simp [hrest, value]
      · exact List.cons_ne_nil c cs

/-- What becomes of a text. -/
theorem parse_eq (s : List Char) :
    parse s =
      if s = [] then .error .empty
      else if highest < leading s then .error .tooLarge
      else if leading s < lowest then .error .tooSmall
      else if unsigned s ≠ [] ∧ run (unsigned s) = unsigned s then .ok (leading s)
      else .error .invalidDigit := by
  by_cases hs : s = []
  · rw [if_pos hs, hs]
    rfl
  rw [if_neg hs, parse_of_ne_nil hs, readMagnitude_eq, leading]
  cases isNegative s with
  | false =>
      have hlarge : highest < signed false (value (run (unsigned s))) ↔
          greatest false < value (run (unsigned s)) := by
        simp only [signed, greatest, highest, Bool.false_eq_true, if_false]
        omega
      have hsmall : ¬ signed false (value (run (unsigned s))) < lowest := by
        simp only [signed, lowest, Bool.false_eq_true, if_false]
        omega
      rw [if_congr hlarge rfl rfl, if_neg hsmall]
      rfl
  | true =>
      have hlarge : ¬ highest < signed true (value (run (unsigned s))) := by
        simp only [signed, highest, if_true]
        omega
      have hsmall : signed true (value (run (unsigned s))) < lowest ↔
          greatest true < value (run (unsigned s)) := by
        simp only [signed, greatest, lowest, if_true]
        omega
      rw [if_neg hlarge, if_congr hsmall rfl rfl]
      rfl

/-- Texts of integers: at most one sign, and one or more digits. -/
inductive Denotes : List Char → Int → Prop
  | bare {ds : List Char} : Digits ds → ds ≠ [] → Denotes ds (value ds)
  | plus {ds : List Char} : Digits ds → ds ≠ [] → Denotes ('+' :: ds) (value ds)
  | minus {ds : List Char} : Digits ds → ds ≠ [] → Denotes ('-' :: ds) (-(value ds : Int))

theorem denotes_iff {s : List Char} {n : Int} :
    Denotes s n ↔ (unsigned s ≠ [] ∧ run (unsigned s) = unsigned s) ∧ n = leading s := by
  constructor
  · rintro (⟨hds, hne⟩ | ⟨hds, hne⟩ | ⟨hds, hne⟩)
    · obtain ⟨hsign, hrest⟩ := unsigned_digits hds
      simp [leading, signed, hsign, hrest, hne, run_digits hds]
    · simp [leading, signed, isNegative, unsigned, hne, run_digits hds]
    · simp [leading, signed, isNegative, unsigned, hne, run_digits hds]
  · rintro ⟨⟨hne, hrun⟩, rfl⟩
    have hds : Digits (unsigned s) := hrun ▸ digits_run (unsigned s)
    rw [leading, hrun]
    rcases sign_cases s with ⟨cs, rfl⟩ | ⟨cs, rfl⟩ | ⟨hsign, hrest⟩
    · exact .minus hds hne
    · exact .plus hds hne
    · rw [hrest] at hds hne ⊢
      rw [hsign]
      exact .bare hds hne

/-- An integer of 64 bits is what its text denotes. -/
theorem denotes_display (n : Int) : Denotes (display n) n := by
  rw [display]
  split
  next hneg =>
    have hn : -((value (numeral n.natAbs) : Nat) : Int) = n := by
      rw [value_numeral]
      omega
    have hdenotes := Denotes.minus (digits_numeral n.natAbs) (numeral_ne_nil n.natAbs)
    rwa [hn] at hdenotes
  next hneg =>
    have hn : ((value (numeral n.natAbs) : Nat) : Int) = n := by
      rw [value_numeral]
      omega
    have hdenotes := Denotes.bare (digits_numeral n.natAbs) (numeral_ne_nil n.natAbs)
    rwa [hn] at hdenotes

/-- A text is read if it denotes an integer of 64 bits. -/
theorem parse_eq_ok_iff {s : List Char} {n : Int} :
    parse s = .ok n ↔ Denotes s n ∧ lowest ≤ n ∧ n ≤ highest := by
  rw [denotes_iff, parse_eq]
  constructor
  · intro h
    split at h
    next => cases h
    next =>
      split at h
      next => cases h
      next =>
        split at h
        next => cases h
        next hlarge hsmall =>
          split at h
          next hwritten =>
            cases h
            exact ⟨⟨hwritten, rfl⟩, Int.not_lt.mp hsmall, Int.not_lt.mp hlarge⟩
          next => cases h
  · rintro ⟨⟨hwritten, rfl⟩, hlow, hhigh⟩
    have hs : s ≠ [] := by
      rintro rfl
      exact hwritten.1 rfl
    rw [if_neg hs, if_neg (Int.not_lt.mpr hhigh), if_neg (Int.not_lt.mpr hlow), if_pos hwritten]

/-- The text of an integer of 64 bits reads back. -/
theorem parse_display (n : Int64) : parse (display n.toInt) = .ok n.toInt := by
  have hlow : lowest ≤ n.toInt := by simpa [lowest] using n.le_toInt
  have hhigh : n.toInt ≤ highest := by
    have hlt := n.toInt_lt
    simp only [highest]
    omega
  exact parse_eq_ok_iff.mpr ⟨denotes_display n.toInt, hlow, hhigh⟩

theorem display_ne_nil (n : Int) : display n ≠ [] := by
  rw [display]
  split
  · exact List.cons_ne_nil _ _
  · exact numeral_ne_nil _

theorem leading_nil : leading [] = 0 := rfl

/-- A text is too large if its leading digits are. -/
theorem parse_eq_tooLarge_iff (s : List Char) :
    parse s = .error .tooLarge ↔ highest < leading s := by
  rw [parse_eq]
  split
  next hs => simp [hs, leading_nil, highest]
  next =>
    split
    next hlarge => simp [hlarge]
    next hlarge =>
      simp only [hlarge, iff_false]
      split
      next => simp
      next => split <;> simp

theorem parse_eq_tooSmall_iff (s : List Char) :
    parse s = .error .tooSmall ↔ leading s < lowest := by
  rw [parse_eq]
  split
  next hs => simp [hs, leading_nil, lowest]
  next =>
    split
    next hlarge =>
      have hsmall : ¬ leading s < lowest := by
        simp only [highest, lowest] at hlarge ⊢
        omega
      simp [hsmall]
    next =>
      split
      next hsmall => simp [hsmall]
      next hsmall =>
        simp only [hsmall, iff_false]
        split <;> simp

/-- A text has an invalid digit if its leading digits are in range and it denotes no
integer. -/
theorem parse_eq_invalidDigit_iff (s : List Char) :
    parse s = .error .invalidDigit ↔
      s ≠ [] ∧ (lowest ≤ leading s ∧ leading s ≤ highest) ∧ ∀ n, ¬ Denotes s n := by
  constructor
  · intro h
    have hs : s ≠ [] := by
      rintro rfl
      cases h
    have hhigh : leading s ≤ highest := by
      refine Int.not_lt.mp fun hlarge => ?_
      rw [(parse_eq_tooLarge_iff s).mpr hlarge] at h
      cases h
    have hlow : lowest ≤ leading s := by
      refine Int.not_lt.mp fun hsmall => ?_
      rw [(parse_eq_tooSmall_iff s).mpr hsmall] at h
      cases h
    refine ⟨hs, ⟨hlow, hhigh⟩, fun n hn => ?_⟩
    obtain ⟨-, rfl⟩ := denotes_iff.mp hn
    rw [parse_eq_ok_iff.mpr ⟨hn, hlow, hhigh⟩] at h
    cases h
  · rintro ⟨hs, ⟨hlow, hhigh⟩, hnone⟩
    have hwritten : ¬ (unsigned s ≠ [] ∧ run (unsigned s) = unsigned s) := fun hwritten =>
      hnone _ (denotes_iff.mpr ⟨hwritten, rfl⟩)
    rw [parse_eq, if_neg hs, if_neg (Int.not_lt.mpr hhigh), if_neg (Int.not_lt.mpr hlow),
      if_neg hwritten]

end Integer

namespace Operand

/-- What becomes of an operand of integers, by its text without the blanks around it. -/
structure ReadsInteger (s : List Char) (result : Except OperandError (Option Value)) : Prop where
  value : ∀ v, result = .ok v ↔
    ∃ n, Integer.Denotes s n ∧ (Integer.lowest ≤ n ∧ n ≤ Integer.highest) ∧
      ∃ k : Int64, k.toInt = n ∧ v = some (.int k)
  empty : result = .error (.int .empty) ↔ s = []
  tooLarge : result = .error (.int .tooLarge) ↔ Integer.highest < Integer.leading s
  tooSmall : result = .error (.int .tooSmall) ↔ Integer.leading s < Integer.lowest
  invalidDigit : result = .error (.int .invalidDigit) ↔
    s ≠ [] ∧ (Integer.lowest ≤ Integer.leading s ∧ Integer.leading s ≤ Integer.highest) ∧
      ∀ n, ¬ Integer.Denotes s n

theorem coerce_int_eq_error_iff {formats : List String} {raw : String} (hraw : raw ≠ "")
    (e : IntegerError) :
    coerce formats .int raw = .error (.int e) ↔
      Integer.parse (trim raw.toList) = .error e := by
  rw [coerce_trim hraw (by decide), read]
  cases Integer.parse (trim raw.toList) <;> simp [Except.map]

theorem coerce_int_eq_ok_iff {formats : List String} {raw : String} (hraw : raw ≠ "")
    (v : Option Value) :
    coerce formats .int raw = .ok v ↔
      ∃ n, Integer.parse (trim raw.toList) = .ok n ∧ v = some (.int (Int64.ofInt n)) := by
  rw [coerce_trim hraw (by decide), read]
  cases Integer.parse (trim raw.toList) <;> simp [Except.map, eq_comm]

/-- **Which operands are integers.**  Without the blanks around it, an operand must be a numeral
of a number of 64 bits.  Of any other operand it is reported whether nothing is left, whether
the digits behind the sign are too many, or else that a character is out of place. -/
theorem coerce_int (formats : List String) {raw : String} (hraw : raw ≠ "") :
    ReadsInteger (trim raw.toList) (coerce formats .int raw) where
  value v := by
    rw [coerce_int_eq_ok_iff hraw]
    simp only [Integer.parse_eq_ok_iff, and_assoc]
    refine exists_congr fun n => and_congr_right fun _ => and_congr_right fun hlow =>
      and_congr_right fun hhigh => ?_
    have hk : (Int64.ofInt n).toInt = n :=
      Int64.toInt_ofInt_of_le (by simpa [Integer.lowest] using hlow) (by
        simp only [Integer.highest] at hhigh
        omega)
    constructor
    · rintro rfl
      exact ⟨_, hk, rfl⟩
    · rintro ⟨k, rfl, rfl⟩
      rw [Int64.ofInt_toInt]
  empty := (coerce_int_eq_error_iff hraw _).trans (Integer.parse_eq_empty_iff _)
  tooLarge := (coerce_int_eq_error_iff hraw _).trans (Integer.parse_eq_tooLarge_iff _)
  tooSmall := (coerce_int_eq_error_iff hraw _).trans (Integer.parse_eq_tooSmall_iff _)
  invalidDigit := (coerce_int_eq_error_iff hraw _).trans (Integer.parse_eq_invalidDigit_iff _)

/-- One less than the least integer is out of range, whatever stands behind it. -/
theorem coerce_int_beyond :
    " -9223372036854775809x" ≠ "" ∧
      ReadsInteger "-9223372036854775809x".toList (coerce [] .int " -9223372036854775809x") ∧
      coerce [] .int " -9223372036854775809x" = .error (.int .tooSmall) := by
  have hraw : " -9223372036854775809x" ≠ "" := by decide
  have hreads := coerce_int [] hraw
  exact ⟨hraw, hreads, hreads.tooSmall.mpr (by decide)⟩

end Operand
end FieldRules
