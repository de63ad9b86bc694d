import FieldRules.Number.Binary64
import FieldRules.Text.Digits

/-!
# Shortest decimal digits

The fewest decimal digits that read back as a given floating-point number, and
of those the ones nearest to it.  A number `m * 2 ^ q` is what every real in an
interval around it is rounded to; the ends belong to the interval exactly if `m`
is even.  For one digit, two digits and so on, the two neighbours of the number
on the decimal grid are tested in exact arithmetic.  Both can be equally near; then
a rule decides.
-/

namespace FieldRules
namespace Binary64

/-- A positive decimal: `digits * 10 ^ exponent`. -/
structure DecimalDigits where
  digits : Nat
  exponent : Int
deriving DecidableEq, Repr

/-- The reals that round to a number, over one denominator: the number itself,
the two ends, and whether the ends belong to it. -/
structure Interval where
  low : Nat
  value : Nat
  high : Nat
  denominator : Nat
  closed : Bool
deriving Repr

/-- The interval of a finite positive number.  Below a power of two the
neighbours are twice as dense, except at the bottom of the range. -/
def interval (x : Binary64) : Interval :=
  let (m, power) := x.significand
  let below := if m = hiddenBit && power ≠ 0 then 1 else 2
  { low := (4 * m - below) <<< power
    value := (4 * m) <<< power
    high := (4 * m + 2) <<< power
    denominator := 4 <<< 1074
    closed := m % 2 = 0 }

/-- Whether the quotient `n / d` lies in an interval. -/
def Interval.holds (i : Interval) (n d : Nat) : Bool :=
  if i.closed then
    decide (i.low * d ≤ n * i.denominator) && decide (n * i.denominator ≤ i.high * d)
  else decide (i.low * d < n * i.denominator) && decide (n * i.denominator < i.high * d)

/-- The grid of multiples of `10 ^ exponent`, as a quotient. -/
def grid (exponent : Int) : Nat × Nat :=
  if exponent < 0 then (1, Text.placeValue exponent.natAbs)
  else (Text.placeValue exponent.natAbs, 1)

/-- Which of two decimals is taken that are equally near to a number: the upper one, or
the one with an even last digit. -/
inductive Tie
  | up
  | even
deriving DecidableEq, Repr

/-- The choice between a multiple and the next one. -/
def Tie.pick (tie : Tie) (lower : Nat) : Nat :=
  if tie = .even ∧ lower % 2 = 0 then lower else lower + 1

/-- The neighbour of the number on a grid that lies in the interval; of two such
neighbours the nearer one, if there is one. -/
def Interval.neighbour? (tie : Tie) (i : Interval) (exponent : Int) : Option Nat :=
  let (n, d) := grid exponent
  let lower := i.value * d / (n * i.denominator)
  let inLower := lower ≠ 0 && i.holds (lower * n) d
  let inUpper := i.holds ((lower + 1) * n) d
  if inLower && inUpper then
    let middle := (2 * lower + 1) * (n * i.denominator)
    if 2 * (i.value * d) < middle then some lower
    else if middle < 2 * (i.value * d) then some (lower + 1)
    else some (tie.pick lower)
  else if inLower then some lower
  else if inUpper then some (lower + 1)
  else none

/-- Drops the trailing zeros of digits, at most as many as the first argument
says. -/
def strip : Nat → DecimalDigits → DecimalDigits
  | 0, d => d
  | fuel + 1, d =>
      if d.digits % 10 = 0 then strip fuel ⟨d.digits / 10, d.exponent + 1⟩ else d

/-- Tries grids from a coarse one downwards. -/
def search (tie : Tie) (i : Interval) : Nat → Int → Option DecimalDigits
  | 0, _ => none
  | fuel + 1, exponent =>
      match i.neighbour? tie exponent with
      | some n => some ⟨n, exponent⟩
      | none => search tie i fuel (exponent - 1)

/-- The exponent of the first decimal digit of a quotient, or one more. -/
def leadingExponent (n d : Nat) : Int :=
  (((n.log2 : Int) - (d.log2 : Int) + 1) * 30103) / 100000 + 1

/-- The shortest digits of a finite number other than zero. -/
def shortest (tie : Tie) (x : Binary64) : DecimalDigits :=
  let i := x.interval
  match search tie i 24 (leadingExponent i.value i.denominator) with
  | some d => strip 20 d
  | none => ⟨i.value, 0⟩

end Binary64
end FieldRules
