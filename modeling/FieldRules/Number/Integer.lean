import FieldRules.Text.Digits

/-!
# Integers

Reading and writing the integers of 64 bits.  A numeral is an optional sign and
one or more digits; its value must lie between `-2 ^ 63` and `2 ^ 63 - 1`.

**Results.**
* `parse_eq_empty_iff`: only the empty text counts as empty.
* `readDigits_nonneg`, `readDigits_neg`: the digit loop on a run of digits, as
  long as the number it denotes is in range.
-/

namespace FieldRules

/-- Why a text is not an integer of 64 bits. -/
inductive IntegerError
  | empty
  | invalidDigit
  | tooLarge
  | tooSmall
deriving DecidableEq, Repr

def IntegerError.message : IntegerError → String
  | .empty => "cannot parse integer from empty string"
  | .invalidDigit => "invalid digit found in string"
  | .tooLarge => "number too large to fit in target type"
  | .tooSmall => "number too small to fit in target type"

namespace Integer

def lowest : Int := -9223372036854775808

def highest : Int := 9223372036854775807

/-- Reads digits onto a number, upwards or downwards from zero.  The first
character that is no digit and the first number out of range both end the
reading, whichever comes first. -/
def readDigits (negative : Bool) (n : Int) : List Char → Except IntegerError Int
  | [] => .ok n
  | c :: cs =>
      if c.isDigit then
        if negative then
          if 10 * n - Text.digit c < lowest then .error .tooSmall
          else readDigits negative (10 * n - Text.digit c) cs
        else
          if highest < 10 * n + Text.digit c then .error .tooLarge
          else readDigits negative (10 * n + Text.digit c) cs
      else .error .invalidDigit

/-- Reads the digits after a sign, of which there must be one. -/
def readMagnitude (negative : Bool) : List Char → Except IntegerError Int
  | [] => .error .invalidDigit
  | cs => readDigits negative 0 cs

/-- The integer that a text denotes. -/
def parse : List Char → Except IntegerError Int
  | [] => .error .empty
  | '-' :: cs => readMagnitude true cs
  | '+' :: cs => readMagnitude false cs
  | cs => readMagnitude false cs

def display (n : Int) : List Char :=
  if n < 0 then '-' :: Text.numeral n.natAbs else Text.numeral n.natAbs

/-- The number that an unsigned numeral with an optional plus sign denotes, if it
is below a limit. -/
def parseBelow? (limit : Nat) (s : List Char) : Option Nat :=
  let ds := match s with
    | '+' :: cs => cs
    | cs => cs
  if ds.isEmpty || !ds.all Char.isDigit then none
  else if Text.value ds < limit then some (Text.value ds) else none

theorem parse_eq_empty_iff (s : List Char) : parse s = .error .empty ↔ s = [] := by
  have hloop : ∀ (negative : Bool) (cs : List Char) (n : Int),
      readDigits negative n cs ≠ .error .empty := by
    intro negative cs
    induction cs with
    | nil => intro n; simp [readDigits]
    | cons c cs ih =>
        intro n
        unfold readDigits
        split
        · split <;> split <;> first | exact ih _ | simp
        · simp
  have hmag : ∀ (negative : Bool) (cs : List Char),
      readMagnitude negative cs ≠ .error .empty := by
    intro negative cs
    cases cs with
    | nil => simp [readMagnitude]
    | cons c cs => exact hloop negative (c :: cs) 0
  constructor
  · intro h
    unfold parse at h
    split at h
    · rfl
    · exact absurd h (hmag _ _)
    · exact absurd h (hmag _ _)
    · exact absurd h (hmag _ _)
  · rintro rfl
    rfl

/-- Digits are read upwards as long as the number stays in range. -/
theorem readDigits_nonneg (n : Nat) (c : Char) (cs : List Char)
    (hdigit : c.isDigit = true) (hrange : (10 * n + Text.digit c : Int) ≤ highest) :
    readDigits false n (c :: cs) = readDigits false (10 * n + Text.digit c : Int) cs := by
  have h : ¬ highest < (10 * n + Text.digit c : Int) := by omega
  simp [readDigits, hdigit, h]

/-- Digits are read downwards as long as the number stays in range. -/
theorem readDigits_neg (n : Int) (c : Char) (cs : List Char)
    (hdigit : c.isDigit = true) (hrange : lowest ≤ 10 * n - Text.digit c) :
    readDigits true n (c :: cs) = readDigits true (10 * n - Text.digit c) cs := by
  have h : ¬ 10 * n - (Text.digit c : Int) < lowest := by omega
  simp [readDigits, hdigit, h]

end Integer
end FieldRules
