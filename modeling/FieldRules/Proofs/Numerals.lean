import FieldRules.Text.Digits
import Mathlib.Algebra.Group.Nat.Defs

/-!
# Digits at the front of a text

A reader of digits takes a run of digits off the front of a text.  Digits that are
followed by something else are read as they stand, and a numeral has its number as its
value, whether it is padded or not.

**Results.**
* `value_padded`, `length_padded`: a padded numeral has its value and its width.
* `run_append`: digits in front of something else are the run of a text.
* `readNumber?_eq_some`, `readRun?_eq_some`, `readExactly?_eq_some`: a reader takes digits off.
* `digits_append_inj`: digits end where something else begins.
* `value_lt`: the value of digits is bounded by their number.
-/

namespace FieldRules
namespace Text

theorem isDigit_iff {c : Char} : c.isDigit = true ↔ 48 ≤ c.toNat ∧ c.toNat ≤ 57 := by
  simp only [Char.isDigit, Bool.and_eq_true, decide_eq_true_eq, ge_iff_le, UInt32.le_iff_toNat_le]
  rfl

/-- All characters are digits. -/
def Digits (ds : List Char) : Prop :=
  ∀ c ∈ ds, c.isDigit = true

/-- A text does not begin with a digit. -/
def EndsRun (s : List Char) : Prop :=
  ∀ c, s.head? = some c → c.isDigit = false

theorem endsRun_nil : EndsRun [] := by
  simp [EndsRun]

theorem endsRun_cons {c : Char} {s : List Char} (h : c.isDigit = false) : EndsRun (c :: s) := by
  simpa [EndsRun] using h

theorem Digits.append {ds es : List Char} (hds : Digits ds) (hes : Digits es) :
    Digits (ds ++ es) := by
  intro c hc
  rcases List.mem_append.mp hc with hc | hc
  · exact hds c hc
  · exact hes c hc

theorem Digits.notMem {ds : List Char} (h : Digits ds) {c : Char} (hc : c.isDigit = false) :
    c ∉ ds := by
  intro hmem
  simp [h c hmem] at hc

theorem digits_run (s : List Char) : Digits (run s) := fun c hc =>
  List.all_eq_true.mp List.all_takeWhile c hc

theorem digits_numeral (n : Nat) : Digits (numeral n) := fun _ hc =>
  Nat.isDigit_of_mem_toDigits (by decide) (by decide) hc

theorem numeral_ne_nil (n : Nat) : numeral n ≠ [] :=
  Nat.toDigits_ne_nil

theorem padded_eq (width n : Nat) :
    padded width n = List.replicate (width - (numeral n).length) '0' ++ numeral n := rfl

theorem digits_padded (width n : Nat) : Digits (padded width n) := by
  rw [padded_eq]
  refine Digits.append ?_ (digits_numeral n)
  intro c hc
  rw [List.eq_of_mem_replicate hc]
  rfl

theorem padded_ne_nil (width n : Nat) : padded width n ≠ [] := by
  rw [padded_eq]
  simp [numeral_ne_nil]

theorem value_padded (width n : Nat) : value (padded width n) = n := by
  rw [padded_eq, value, Nat.ofDigitChars_append, Nat.ofDigitChars_replicate_zero, Nat.mul_zero]
  exact value_numeral n

theorem length_padded {width n : Nat} (hwidth : 0 < width) (hn : n < 10 ^ width) :
    (padded width n).length = width := by
  have hlength : (numeral n).length ≤ width :=
    (Nat.length_toDigits_le_iff (by decide) hwidth).mpr hn
  rw [padded, List.length_leftpad]
  omega

/-- The value of digits is bounded by their number. -/
theorem value_lt {ds : List Char} (h : Digits ds) : value ds < 10 ^ ds.length := by
  induction ds with
  | nil => simp [value]
  | cons c ds ih =>
      have hrest := ih fun d hd => h d (List.mem_cons_of_mem _ hd)
      have hdigit : c.toNat - '0'.toNat ≤ 9 := by
        have hc := isDigit_iff.mp (h c List.mem_cons_self)
        have hzero : '0'.toNat = 48 := rfl
        omega
      rw [value, Nat.ofDigitChars_cons, Nat.ofDigitChars_eq_ofDigitChars_zero, List.length_cons,
        Nat.pow_succ, ← value]
      have hmul : 10 ^ ds.length * (10 * 0 + (c.toNat - '0'.toNat)) ≤ 10 ^ ds.length * 9 :=
        Nat.mul_le_mul_left _ (by omega)
      omega

section Run

variable {ds s : List Char} (hds : Digits ds) (hs : EndsRun s)
include hds hs

theorem run_append : run (ds ++ s) = ds := by
  rw [run, List.takeWhile_append_of_pos hds]
  cases s with
  | nil => simp
  | cons c s => simp [hs c rfl]

theorem readRun?_append (hne : ds ≠ []) : readRun? (ds ++ s) = some (value ds, s) := by
  simp [readRun?, run_append hds hs, hne]

theorem readNumber?_append {width : Nat} (hne : ds ≠ []) (hlength : ds.length ≤ width) :
    readNumber? width (ds ++ s) = some (value ds, s) := by
  simp [readNumber?, run_append hds hs, hne, List.take_of_length_le hlength]

theorem readExactly?_append : readExactly? ds.length (ds ++ s) = some (value ds, s) := by
  simp [readExactly?, run_append hds hs]

end Run

theorem run_append_drop (s : List Char) : run s ++ s.drop (run s).length = s :=
  List.prefix_iff_eq_append.mp (List.takeWhile_prefix _)

theorem take_run_append_drop (count : Nat) (s : List Char) :
    (run s).take count ++ s.drop ((run s).take count).length = s :=
  List.prefix_iff_eq_append.mp ((List.take_prefix _ _).trans (List.takeWhile_prefix _))

theorem digits_take_run (count : Nat) (s : List Char) : Digits ((run s).take count) :=
  fun c hc => digits_run s c (List.mem_of_mem_take hc)

section Taken

variable {n : Nat} {s rest : List Char}

theorem readNumber?_eq_some {width : Nat} (h : readNumber? width s = some (n, rest)) :
    ∃ ds, s = ds ++ rest ∧ Digits ds ∧ ds ≠ [] := by
  rw [readNumber?] at h
  split at h
  next => cases h
  next hne =>
    cases h
    exact ⟨_, (take_run_append_drop width s).symm, digits_take_run width s, by simpa using hne⟩

theorem readRun?_eq_some (h : readRun? s = some (n, rest)) :
    ∃ ds, s = ds ++ rest ∧ Digits ds ∧ ds ≠ [] := by
  rw [readRun?] at h
  split at h
  next => cases h
  next hne =>
    cases h
    exact ⟨_, (run_append_drop s).symm, digits_run s, by simpa using hne⟩

theorem readExactly?_eq_some {count : Nat} (h : readExactly? count s = some (n, rest)) :
    ∃ ds, s = ds ++ rest ∧ Digits ds ∧ ds.length = count := by
  rw [readExactly?] at h
  split at h
  next hlength =>
    cases h
    have hsplit := (take_run_append_drop count s).symm
    rw [hlength] at hsplit
    exact ⟨_, hsplit, digits_take_run count s, hlength⟩
  next => cases h

/-- As many digits as a number may have are that number. -/
theorem readNumber?_of_readExactly? {count : Nat} (hpos : 0 < count)
    (h : readExactly? count s = some (n, rest)) : readNumber? count s = some (n, rest) := by
  rw [readExactly?] at h
  split at h
  next hlength =>
    cases h
    have hne : (run s).take count ≠ [] := List.ne_nil_of_length_pos (by omega)
    rw [readNumber?, if_neg (by simpa using hne), hlength]
  next => cases h

end Taken

/-- A number written in a fixed width is read back in it. -/
theorem readExactly?_padded {width n : Nat} {s : List Char} (hwidth : 0 < width)
    (hn : n < 10 ^ width) (hs : EndsRun s) :
    readExactly? width (padded width n ++ s) = some (n, s) := by
  have hread := readExactly?_append (digits_padded width n) hs
  rwa [length_padded hwidth hn, value_padded] at hread

/-- Digits end where something else begins. -/
theorem digits_append_inj {ds es s t : List Char} (hds : Digits ds) (hes : Digits es)
    (hs : EndsRun s) (ht : EndsRun t) (h : ds ++ s = es ++ t) : ds = es ∧ s = t := by
  have hrun : ds = es := by
    rw [← run_append hds hs, h, run_append hes ht]
  subst hrun
  exact ⟨rfl, List.append_cancel_left h⟩

theorem padded_inj {width m n : Nat} (h : padded width m = padded width n) : m = n := by
  rw [← value_padded width m, h, value_padded]

theorem numeral_inj {m n : Nat} (h : numeral m = numeral n) : m = n := by
  rw [← value_numeral m, h, value_numeral]

end Text
end FieldRules
