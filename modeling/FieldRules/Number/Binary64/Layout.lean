import FieldRules.Number.Binary64.Shortest
import FieldRules.Text.Digits

/-!
# Layouts of floating-point numbers

The same shortest digits are written in several ways.  A layout says for which
numbers the digits are written out around a point, whether a whole number keeps
a point and a zero, how an exponent is written, and which digits are taken of two
equally near ones.
-/

namespace FieldRules
namespace Binary64

/-- How a floating-point number is written.  A number whose first digit stands
for `10 ^ e` is written without an exponent if `e` lies in the given range. -/
structure Layout where
  /-- The range of positional exponents; none stands for all of them. -/
  positional : Option (Int × Int)
  /-- Whether a whole number ends in a point and a zero. -/
  pointZero : Bool
  /-- Whether a positive exponent has a sign. -/
  exponentSign : Bool
  /-- Which digits are taken of two equally near ones. -/
  tie : Tie

/-- The layout of values in texts for readers: never an exponent. -/
def plainLayout : Layout := ⟨none, false, false, .up⟩

/-- The layout of values in outlines: positional from `1e-4` to below `1e16`. -/
def outlineLayout : Layout := ⟨some (-4, 15), true, false, .up⟩

/-- The layout of numbers in documents: positional from `1e-5` to below `1e16`. -/
def documentLayout : Layout := ⟨some (-5, 15), true, true, .even⟩

/-- Digits written out around a point. -/
def positionalText (pointZero : Bool) (d : DecimalDigits) : List Char :=
  let ds := Text.numeral d.digits
  if 0 ≤ d.exponent then
    ds ++ List.replicate d.exponent.toNat '0' ++ if pointZero then ['.', '0'] else []
  else
    let places := d.exponent.natAbs
    if places < ds.length then
      ds.take (ds.length - places) ++ '.' :: ds.drop (ds.length - places)
    else '0' :: '.' :: List.leftpad places '0' ds

/-- Digits written with one digit before the point, and an exponent. -/
def scientificText (exponentSign : Bool) (d : DecimalDigits) : List Char :=
  let ds := Text.numeral d.digits
  let exponent := d.exponent + (ds.length - 1 : Nat)
  let mantissa := match ds with
    | first :: second :: rest => first :: '.' :: second :: rest
    | ds => ds
  let sign := if exponent < 0 then ['-'] else if exponentSign then ['+'] else []
  mantissa ++ 'e' :: (sign ++ Text.numeral exponent.natAbs)

def Layout.digitsText (layout : Layout) (d : DecimalDigits) : List Char :=
  let first := d.exponent + ((Text.numeral d.digits).length - 1 : Nat)
  match layout.positional with
  | none => positionalText layout.pointZero d
  | some (low, high) =>
      if low ≤ first && first ≤ high then positionalText layout.pointZero d
      else scientificText layout.exponentSign d

def Layout.text (layout : Layout) (x : Binary64) : List Char :=
  if x.isNaN then ['N', 'a', 'N']
  else
    let magnitude :=
      if x.isInfinite then ['i', 'n', 'f']
      else if x.magnitude = 0 then '0' :: if layout.pointZero then ['.', '0'] else []
      else layout.digitsText (x.shortest layout.tie)
    if x.negative then '-' :: magnitude else magnitude

def display (x : Binary64) : List Char := plainLayout.text x

def inspect (x : Binary64) : List Char := outlineLayout.text x

end Binary64
end FieldRules
