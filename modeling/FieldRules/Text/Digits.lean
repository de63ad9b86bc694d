/-!
# Decimal digits

Decimal numerals over the ASCII digits: writing a natural number, reading a run
of digits, and cutting the leading run off a text.

**Results.**
* `value_numeral`: a written number reads back.
-/

namespace FieldRules
namespace Text

/-- The numeral of a natural number, without leading zeros. -/
def numeral (n : Nat) : List Char :=
  Nat.toDigits 10 n

/-- The number that a run of digits denotes. -/
def value (ds : List Char) : Nat :=
  Nat.ofDigitChars 10 ds 0

/-- The numeral of a number, filled up with zeros to a width. -/
def padded (width n : Nat) : List Char :=
  List.leftpad width '0' (numeral n)

/-- What a digit counts as a multiple of, some places before the last one: a power
of ten. -/
def placeValue (places : Nat) : Nat :=
  Nat.pow 10 places

/-- The leading digits of a text. -/
def run (s : List Char) : List Char :=
  s.takeWhile Char.isDigit

def digit (c : Char) : Nat :=
  c.toNat - '0'.toNat

/-- Reads at least one and at most `width` digits off a text. -/
def readNumber? (width : Nat) (s : List Char) : Option (Nat × List Char) :=
  let ds := (run s).take width
  if ds.isEmpty then none else some (value ds, s.drop ds.length)

/-- Reads exactly `count` digits off a text. -/
def readExactly? (count : Nat) (s : List Char) : Option (Nat × List Char) :=
  let ds := (run s).take count
  if ds.length = count then some (value ds, s.drop count) else none

/-- Reads a whole run of digits off a text, at least one. -/
def readRun? (s : List Char) : Option (Nat × List Char) :=
  let ds := run s
  if ds.isEmpty then none else some (value ds, s.drop ds.length)

@[simp] theorem value_numeral (n : Nat) : value (numeral n) = n :=
  Nat.ofDigitChars_toDigits (by decide) (by decide)

@[simp] theorem placeValue_zero : placeValue 0 = 1 := rfl

theorem placeValue_pos (places : Nat) : 0 < placeValue places :=
  Nat.pow_pos (by decide)

end Text
end FieldRules
