import FieldRules.Text.Digits

/-!
# Decimal numbers

A decimal is a sign, a coefficient below `2 ^ 96` and a scale of at most 28: the
number `± coefficient / 10 ^ scale`.  Scale and sign of zero are part of the
text of a decimal and not of its order.
-/

namespace FieldRules

/-- The first coefficient that no decimal has: `2 ^ 96`. -/
def Decimal.coefficientLimit : Nat := 79228162514264337593543950336

/-- A signed coefficient with a decimal scale. -/
structure Decimal where
  negative : Bool
  coefficient : Nat
  scale : Nat
  coefficient_lt : coefficient < Decimal.coefficientLimit
  scale_lt : scale < 29
deriving DecidableEq, Repr

namespace Decimal

/-- The decimal with the given parts, each taken modulo its range. -/
def ofParts (negative : Bool) (coefficient scale : Nat) : Decimal where
  negative := negative
  coefficient := coefficient % coefficientLimit
  scale := scale % 29
  coefficient_lt := Nat.mod_lt _ (by decide)
  scale_lt := Nat.mod_lt _ (by decide)

def zero : Decimal := ofParts false 0 0

/-- The coefficient with its sign. -/
def signed (d : Decimal) : Int :=
  if d.negative then -(d.coefficient : Int) else d.coefficient

/-- The numeric order of decimals, whatever their scales. -/
def compare (a b : Decimal) : Ordering :=
  Ord.compare (a.signed * Text.placeValue b.scale) (b.signed * Text.placeValue a.scale)

/-- The digits of a decimal without its sign: as many places as the scale says,
and at least one digit before the point. -/
def magnitudeText (d : Decimal) : List Char :=
  if d.scale = 0 then Text.numeral d.coefficient
  else
    Text.numeral (d.coefficient / Text.placeValue d.scale) ++
      '.' :: Text.padded d.scale (d.coefficient % Text.placeValue d.scale)

def display (d : Decimal) : List Char :=
  if d.negative then '-' :: d.magnitudeText else d.magnitudeText

end Decimal
end FieldRules
