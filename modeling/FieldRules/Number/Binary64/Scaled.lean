import FieldRules.Number.Binary64.Reader

/-!
# Scaling by powers of ten

A whole number times a power of ten, computed in the numbers of 64 bits: the whole
number is rounded, and then multiplied or divided by the rounded power of ten, which
rounds again.  The result need not be the nearest number, as it is for a numeral that
is read at once.
-/

namespace FieldRules
namespace Binary64

/-- A finite magnitude as a multiple of the least positive number. -/
def units (x : Binary64) : Nat :=
  x.significand.1 <<< x.significand.2

/-- The number nearest to a natural number. -/
def ofNat (n : Nat) : Binary64 :=
  ofMagnitude false (magnitudeOfRatio n 1)

/-- The number nearest to a power of ten. -/
def tens (places : Nat) : Binary64 :=
  ofNat (Text.placeValue places)

/-- The product of two finite magnitudes, rounded. -/
def product (x y : Binary64) : Binary64 :=
  ofMagnitude false (magnitudeOfRatio (x.units * y.units) (1 <<< 2148))

/-- The quotient of two finite magnitudes, rounded. -/
def quotient (x y : Binary64) : Binary64 :=
  ofMagnitude false (magnitudeOfRatio x.units y.units)

/-- The greatest power of ten that is a number. -/
def greatestTens : Nat := 308

/-- A whole number of 64 bits times a power of ten, rounded in every step.  A power
too great for one step is taken in two; what is divided twice by the greatest power of
ten is zero. -/
def scaled (n : Nat) (exponent : Int) : Binary64 :=
  if n = 0 then zero
  else if 0 ≤ exponent then
    if exponent ≤ greatestTens then (ofNat n).product (tens exponent.toNat) else infinity false
  else if exponent.natAbs ≤ greatestTens then (ofNat n).quotient (tens exponent.natAbs)
  else if exponent.natAbs ≤ 2 * greatestTens then
    ((ofNat n).quotient (tens greatestTens)).quotient (tens (exponent.natAbs - greatestTens))
  else zero

end Binary64
end FieldRules
