import FieldRules.Number.Binary64
import FieldRules.Text.Digits

/-!
# Reading floating-point numbers

A numeral is an optional sign, digits with at most one point among them, and an
optional exponent; `inf`, `infinity` and `nan` are read in any case.  The number
read is the nearest one, and of two nearest ones the even one.
-/

namespace FieldRules

/-- Why a text is not a floating-point number. -/
inductive FloatError
  | empty
  | invalid
deriving DecidableEq, Repr

def FloatError.message : FloatError → String
  | .empty => "cannot parse float from empty string"
  | .invalid => "invalid float literal"

namespace Binary64

/-- A quotient rounded to the nearest integer, a half to the even neighbour. -/
def roundHalfEven (n d : Nat) : Nat :=
  let q := n / d
  let r := n % d
  if 2 * r < d then q
  else if d < 2 * r then q + 1
  else if q % 2 = 0 then q else q + 1

/-- The greatest power of two, counted from `2 ^ (-1074)`, that leaves a positive
quotient at least 53 bits long, or zero if there is none. -/
def powerOf (n d : Nat) : Nat :=
  let low := (n <<< 1074).log2 - d.log2 - 1
  let power := if d <<< (low + 1) ≤ n <<< 1074 then low + 1 else low
  power - 52

/-- The magnitude bits nearest to a quotient.  A significand that rounds up to 54
bits carries into the exponent, and one beyond the greatest number is infinite. -/
def magnitudeOfRatio (n d : Nat) : Nat :=
  if n = 0 then 0
  else
    let power := powerOf n d
    min infiniteBits (power * hiddenBit + roundHalfEven (n <<< 1074) (d <<< power))

/-- The magnitude bits nearest to `n * 10 ^ exponent`.  Numbers far outside the
range need no arithmetic. -/
def magnitudeOfDecimal (n : Nat) (exponent : Int) : Nat :=
  let digits := (Text.numeral n).length
  if n = 0 then 0
  else if digits + exponent < -400 then 0
  else if 400 < digits + exponent then infiniteBits
  else if exponent < 0 then magnitudeOfRatio n (Text.placeValue exponent.natAbs)
  else magnitudeOfRatio (n * Text.placeValue exponent.natAbs) 1

/-- The exponent that follows the digits of a numeral, or zero. -/
def readExponent? : List Char → Option Int
  | [] => some 0
  | c :: cs =>
      if c == 'e' || c == 'E' then
        let (negative, ds) := match cs with
          | '-' :: r => (true, r)
          | '+' :: r => (false, r)
          | r => (false, r)
        if ds.isEmpty || !ds.all Char.isDigit then none
        else some (if negative then -(Text.value ds : Int) else Text.value ds)
      else none

/-- The magnitude bits of a numeral without its sign. -/
def readNumeral? (s : List Char) : Option Nat := do
  let whole := Text.run s
  let rest := s.drop whole.length
  let (places, rest) := match rest with
    | '.' :: r => (Text.run r, r.drop (Text.run r).length)
    | r => ([], r)
  if whole.isEmpty && places.isEmpty then none
  else
    let exponent ← readExponent? rest
    some (magnitudeOfDecimal (Text.value (whole ++ places)) (exponent - places.length))

/-- The magnitude bits of a name for infinity or for what is not a number. -/
def readName? (s : List Char) : Option Nat :=
  let name := String.ofList (s.map Char.toLower)
  if name == "inf" || name == "infinity" then some infiniteBits
  else if name == "nan" then some (infiniteBits + hiddenBit / 2)
  else none

/-- The number that a text without its sign denotes. -/
def readUnsigned (negative : Bool) (s : List Char) : Except FloatError Binary64 :=
  match (readNumeral? s).or (readName? s) with
  | some magnitude => .ok (ofMagnitude negative magnitude)
  | none => .error .invalid

/-- The number that a text denotes. -/
def parse : List Char → Except FloatError Binary64
  | [] => .error .empty
  | '-' :: cs => readUnsigned true cs
  | '+' :: cs => readUnsigned false cs
  | cs => readUnsigned false cs

end Binary64
end FieldRules
