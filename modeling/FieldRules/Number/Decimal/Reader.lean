import FieldRules.Number.Decimal
import FieldRules.Number.Integer

/-!
# Reading decimal numbers

A numeral is an optional sign and digits with at most one point; once a digit
has been read, underscores may stand anywhere.  An exponent may follow, with `e`
or `E`.  A numeral with more places than a decimal holds is rounded, half away
from zero; one with too many digits before the point is refused.

A coefficient is called wide once it has reached `wideFrom`.  Only wide
coefficients are watched for overflow.  Behind the last place that a decimal has, the
first digit decides the rounding.  Underscores before that digit are passed over if
the coefficient was wide before that place; otherwise the first one stands for the
digit zero.
-/

namespace FieldRules

/-- Why a text is not a decimal. -/
inductive DecimalError
  | empty
  | noDigits
  | leadingUnderscore
  | secondPoint
  | unknownCharacter
  | tooManyDigits
  | roundsOver
  | exponent
  | scaleTooLarge (places : Nat)
  | tooLarge
deriving DecidableEq, Repr

def DecimalError.message : DecimalError → String
  | .empty => "Invalid decimal: empty"
  | .noDigits => "Invalid decimal: no digits found"
  | .leadingUnderscore => "Invalid decimal: must start lead with a number"
  | .secondPoint => "Invalid decimal: two decimal points"
  | .unknownCharacter => "Invalid decimal: unknown character"
  | .tooManyDigits => "Invalid decimal: overflow from too many digits"
  | .roundsOver => "Invalid decimal: overflow from mantissa after rounding"
  | .exponent => "Failed to parse"
  | .scaleTooLarge places =>
      "Scale exceeds the maximum precision allowed: " ++ toString places ++ " > 28"
  | .tooLarge => "Number exceeds maximum value that can be represented."

namespace Decimal

def maxScale : Nat := 28

/-- From this coefficient on, one more digit may exceed 64 bits. -/
def wideFrom : Nat := 18446744073709551615 / 10 - 255

/-- Checks the characters that are cut off: digits and underscores only. -/
def checkTail : List Char → Except DecimalError Unit
  | [] => .ok ()
  | c :: cs =>
      if c.isDigit || c == '_' then checkTail cs
      else .error (if c == '.' then .secondPoint else .unknownCharacter)

/-- The digit that decides the rounding; an underscore counts as zero. -/
def roundingDigit (c : Char) : Nat :=
  if c.isDigit then Text.digit c else 0

/-- Rounds half away from zero by the digit behind the last place.  A coefficient
that rounds over gives up its last place. -/
def roundBy (digit coefficient scale : Nat) : Except DecimalError (Nat × Nat) :=
  if digit < 5 then .ok (coefficient, scale)
  else if coefficient + 1 < coefficientLimit then .ok (coefficient + 1, scale)
  else if scale = 0 then .error .roundsOver
  else .ok ((coefficient + 5) / 10, scale - 1)

/-- Ends a reading at the first character that is cut off.  What is cut off is checked
after the rounding. -/
def round (coefficient scale : Nat) (tail : List Char) : Except DecimalError (Nat × Nat) := do
  let r ← roundBy ((tail.head?.map roundingDigit).getD 0) coefficient scale
  checkTail tail
  return r

/-- Where a reading stands: whether a digit and the point have been seen, whether
the coefficient is wide, and the parts read so far. -/
structure Progress where
  seen : Bool := false
  point : Bool := false
  wide : Bool := false
  coefficient : Nat := 0
  scale : Nat := 0

/-- The parts of the decimal after one more digit. -/
def Progress.push (p : Progress) (digit : Nat) : Progress :=
  let coefficient := 10 * p.coefficient + digit
  { seen := true
    point := p.point
    wide := p.wide || decide (wideFrom ≤ coefficient)
    coefficient := coefficient
    scale := if p.point then p.scale + 1 else p.scale }

/-- Whether all places of a decimal have been read. -/
def Progress.isFull (p : Progress) : Bool :=
  p.point && decide (maxScale ≤ p.scale)

/-- Reads a numeral without its sign into coefficient and scale. -/
def scan (p : Progress) : List Char → Except DecimalError (Nat × Nat)
  | [] => if p.seen then .ok (p.coefficient, p.scale) else .error .noDigits
  | c :: cs =>
      if c.isDigit then
        let next := p.push (Text.digit c)
        if p.isFull then round p.coefficient p.scale (c :: cs)
        else if p.wide && decide (coefficientLimit ≤ next.coefficient) then
          if p.point then round p.coefficient p.scale (c :: cs)
          else .error .tooManyDigits
        else if next.isFull && !p.wide && !cs.isEmpty then round next.coefficient next.scale cs
        else scan next cs
      else if c == '.' then
        if p.point then .error .secondPoint else scan { p with point := true } cs
      else if c == '_' then
        if p.seen then scan p cs else .error .leadingUnderscore
      else .error .unknownCharacter

/-- Reads a numeral without an exponent.  A zero that is read has no sign. -/
def parsePlain : List Char → Except DecimalError Decimal
  | [] => .error .empty
  | '-' :: cs => (scan {} cs).map fun r => ofParts (r.1 != 0) r.1 r.2
  | '+' :: cs => (scan {} cs).map fun r => ofParts false r.1 r.2
  | cs => (scan {} cs).map fun r => ofParts false r.1 r.2

/-- The decimal at a smaller scale, rounded half away from zero. -/
def rescale (d : Decimal) (scale : Nat) : Decimal :=
  let unit := Text.placeValue (d.scale - scale)
  ofParts d.negative ((2 * d.coefficient + unit) / (2 * unit)) scale

/-- A decimal divided by a power of ten of at most 28 places.  Places that do not
fit are rounded off; the sign stays even if nothing else does. -/
def shiftDown (d : Decimal) (places : Nat) : Decimal :=
  if maxScale < d.scale + places then
    ofParts d.negative (d.rescale (maxScale - places)).coefficient maxScale
  else ofParts d.negative d.coefficient (d.scale + places)

/-- A decimal multiplied by a power of ten: the point moves through the places
there are, and the rest is multiplied out. -/
def shiftUp (d : Decimal) (places : Nat) : Except DecimalError Decimal :=
  if places ≤ d.scale then .ok (ofParts d.negative d.coefficient (d.scale - places))
  else if maxScale < places then .error (.scaleTooLarge places)
  else if d.coefficient * Text.placeValue (places - d.scale) < coefficientLimit then
    .ok (ofParts d.negative (d.coefficient * Text.placeValue (places - d.scale)) 0)
  else .error .tooLarge

/-- The first number that is too great for an exponent: `2 ^ 32`. -/
def exponentLimit : Nat := 4294967296

/-- Applies the text of an exponent. -/
def applyExponent (d : Decimal) : List Char → Except DecimalError Decimal
  | '-' :: cs =>
      match Integer.parseBelow? exponentLimit cs with
      | none => .error .exponent
      | some places =>
          if maxScale < places then .error (.scaleTooLarge places)
          else .ok (d.shiftDown places)
  | cs =>
      match Integer.parseBelow? exponentLimit cs with
      | none => .error .exponent
      | some places => d.shiftUp places

/-- Whether a character introduces an exponent. -/
def isExponentMark (c : Char) : Bool :=
  c == 'e' || c == 'E'

/-- The decimal that a text denotes. -/
def parse (s : List Char) : Except DecimalError Decimal :=
  match s.dropWhile (fun c => !isExponentMark c) with
  | [] => parsePlain s
  | _ :: exponent => do
      let d ← parsePlain (s.takeWhile fun c => !isExponentMark c)
      applyExponent d exponent

end Decimal
end FieldRules
