/-!
# Binary floating-point numbers of 64 bits

A number is kept as its 64 bits: a sign, eleven bits of exponent and 52 bits of
fraction.  The bits without the sign grow with the magnitude, which gives the
order without any arithmetic on reals.

**Results.**
* `compare?_eq_none_iff`: two numbers are incomparable exactly if one of them is
  not a number.
-/

namespace FieldRules

/-- A floating-point number, as its bits. -/
structure Binary64 where
  bits : UInt64
deriving DecidableEq, Repr

namespace Binary64

def signBit : Nat := 9223372036854775808

/-- The lowest bit of the exponent, bit 52, which a significand has although it is not
written. -/
def hiddenBit : Nat := 4503599627370496

/-- The magnitude bits of infinity; greater ones mean no number. -/
def infiniteBits : Nat := 2047 * hiddenBit

def negative (x : Binary64) : Bool :=
  decide (signBit ≤ x.bits.toNat)

/-- The bits without the sign. -/
def magnitude (x : Binary64) : Nat :=
  x.bits.toNat % signBit

def isNaN (x : Binary64) : Bool :=
  decide (infiniteBits < x.magnitude)

def isInfinite (x : Binary64) : Bool :=
  decide (x.magnitude = infiniteBits)

/-- The number with a sign and magnitude bits. -/
def ofMagnitude (negative : Bool) (magnitude : Nat) : Binary64 :=
  ⟨UInt64.ofNat (magnitude + if negative then signBit else 0)⟩

def zero : Binary64 := ofMagnitude false 0

def infinity (negative : Bool) : Binary64 := ofMagnitude negative infiniteBits

/-- The quiet value that is not a number, with a sign. -/
def nan (negative : Bool) : Binary64 := ofMagnitude negative (infiniteBits + hiddenBit / 2)

/-- An integer that orders the numbers: zero has one key for both its signs. -/
def key (x : Binary64) : Int :=
  if x.negative then -(x.magnitude : Int) else x.magnitude

/-- The order of numbers; what is not a number has no place in it. -/
def compare? (x y : Binary64) : Option Ordering :=
  if x.isNaN || y.isNaN then none else some (compare x.key y.key)

/-- The significand and the power of two of a finite magnitude: the number is
`significand * 2 ^ (power - 1074)`. -/
def significand (x : Binary64) : Nat × Nat :=
  let exponent := x.magnitude / hiddenBit
  let fraction := x.magnitude % hiddenBit
  if exponent = 0 then (fraction, 0) else (fraction + hiddenBit, exponent - 1)

theorem compare?_eq_none_iff (x y : Binary64) :
    x.compare? y = none ↔ x.isNaN = true ∨ y.isNaN = true := by
  unfold compare?
  cases x.isNaN <;> cases y.isNaN <;> simp

end Binary64
end FieldRules
