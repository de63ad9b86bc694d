import FieldRules.Json
import FieldRules.Number.Binary64.Scaled

/-!
# Reading JSON texts

A document is one value with blanks around it.  A number is an integer when it has
neither a fraction nor an exponent and fits 64 bits, signed or unsigned; any other
number is a binary fraction, and so is minus zero.  The digits of a binary fraction
are scaled by a power of ten, so that it can differ from the nearest number in its last
bits.  Of members with one name the last one counts, in the place of the first.
-/

namespace FieldRules
namespace Json

/-- Leaves out spaces, tabs and line ends at the front. -/
def skipBlanks (s : List Char) : List Char :=
  s.dropWhile fun c => c = ' ' || c = '\t' || c = '\n' || c = '\r'

/-- Reads a character off the front, after blanks. -/
def expect? (c : Char) (s : List Char) : Option (List Char) :=
  match skipBlanks s with
  | d :: r => if d = c then some r else none
  | [] => none

def word? : List Char → List Char → Option (List Char)
  | [], s => some s
  | _ :: _, [] => none
  | w :: ws, c :: s => if w = c then word? ws s else none

/-- The number that a hexadecimal digit stands for. -/
def hexDigit? (c : Char) : Option Nat :=
  if c.isDigit then some (c.toNat - '0'.toNat)
  else if 'a' ≤ c ∧ c ≤ 'f' then some (c.toNat - 'a'.toNat + 10)
  else if 'A' ≤ c ∧ c ≤ 'F' then some (c.toNat - 'A'.toNat + 10)
  else none

/-- The number that four hexadecimal digits denote. -/
def codeUnit? (a b c d : Char) : Option Nat := do
  let a ← hexDigit? a
  let b ← hexDigit? b
  let c ← hexDigit? c
  let d ← hexDigit? d
  return ((a * 16 + b) * 16 + c) * 16 + d

/-- The character that a letter after a backslash stands for. -/
def shortEscape? : Char → Option Char
  | '"' => some '"'
  | '\\' => some '\\'
  | '/' => some '/'
  | 'b' => some '\x08'
  | 'f' => some '\x0c'
  | 'n' => some '\n'
  | 'r' => some '\r'
  | 't' => some '\t'
  | _ => none

/-- Reads a text up to its closing quote.  The first half of a pair of code units
is held until its second half follows. -/
def readText (high : Option Nat) (read : List Char) : List Char → Option (String × List Char)
  | [] => none
  | '\\' :: 'u' :: a :: b :: c :: d :: s => do
      let n ← codeUnit? a b c d
      match high with
      | some h =>
          if 0xDC00 ≤ n ∧ n < 0xE000 then
            readText none (Char.ofNat (0x10000 + (h - 0xD800) * 0x400 + (n - 0xDC00)) :: read) s
          else none
      | none =>
          if 0xD800 ≤ n ∧ n < 0xDC00 then readText (some n) read s
          else if 0xDC00 ≤ n ∧ n < 0xE000 then none
          else readText none (Char.ofNat n :: read) s
  | '\\' :: c :: s => do
      let e ← shortEscape? c
      if high.isSome then none else readText none (e :: read) s
  | c :: s =>
      if high.isSome then none
      else if c = '"' then some (String.ofList read.reverse, s)
      else if c.toNat < 0x20 then none
      else readText none (c :: read) s

/-- The digits at the front and what follows, with no leading zero before another
digit. -/
def readWhole? (s : List Char) : Option (List Char × List Char) :=
  match Text.run s with
  | [] => none
  | '0' :: _ :: _ => none
  | ds => some (ds, s.drop ds.length)

/-- Reads the digits of a fraction, of which there must be one behind the point, or
nothing. -/
def readFraction? : List Char → Option (List Char × List Char)
  | '.' :: s =>
      let ds := Text.run s
      if ds.isEmpty then none else some (ds, s.drop ds.length)
  | s => some ([], s)

/-- Reads a power of ten: perhaps a sign, and digits. -/
def readPower? : List Char → Option (Int × List Char)
  | '+' :: s => (Text.readRun? s).map fun r => ((r.1 : Int), r.2)
  | '-' :: s => (Text.readRun? s).map fun r => (-(r.1 : Int), r.2)
  | s => (Text.readRun? s).map fun r => ((r.1 : Int), r.2)

/-- Reads an exponent: a letter and a power of ten, or nothing. -/
def readExponent? : List Char → Option (Option Int × List Char)
  | c :: s =>
      if c = 'e' || c = 'E' then (readPower? s).map fun r => (some r.1, r.2)
      else some (none, c :: s)
  | [] => some (none, [])

/-- Reads digits onto a number as long as it fits 64 bits, and leaves the others. -/
def takeDigits (n : Nat) : List Char → Nat × List Char
  | [] => (n, [])
  | c :: cs =>
      if 10 * n + Text.digit c < word64Limit then takeDigits (10 * n + Text.digit c) cs
      else (n, c :: cs)

/-- The value of a number that is not an integer, from its sign, the digits before and
behind its point, and its exponent.  Digits before the point that do not fit count as
zeros, and those behind it do not count; there is no value beyond the greatest
number. -/
def realOf? (negative : Bool) (whole fraction : List Char) (exponent : Int) : Option Json :=
  let (n, zeros) := takeDigits 0 whole
  let (n, left) := takeDigits n fraction
  let places := fraction.length - left.length
  let x := Binary64.scaled n (exponent + zeros.length - places)
  if x.isInfinite then none else some (.real (.ofMagnitude negative x.magnitude))

/-- The value of a number, from its sign, its digits, and its exponent. -/
def numberOf? (negative : Bool) (whole fraction : List Char) (exponent : Option Int) :
    Option Json :=
  let n := Text.value whole
  let isWhole := fraction.isEmpty && exponent.isNone
  if isWhole && !negative && decide (n < word64Limit) then some (.integer n)
  else if isWhole && negative && decide (0 < n ∧ 2 * n ≤ word64Limit) then
    some (.integer (-n))
  else realOf? negative whole fraction (exponent.getD 0)

def readNumber? (s : List Char) : Option (Json × List Char) := do
  let (negative, s) := match s with
    | '-' :: r => (true, r)
    | r => (false, r)
  let (whole, s) ← readWhole? s
  let (fraction, s) ← readFraction? s
  let (exponent, s) ← readExponent? s
  let j ← numberOf? negative whole fraction exponent
  return (j, s)

mutual

def readValue : Nat → List Char → Option (Json × List Char)
  | 0, _ => none
  | fuel + 1, s =>
      match skipBlanks s with
      | '"' :: s => do
          let (t, s) ← readText none [] s
          return (.text t, s)
      | '[' :: s =>
          match skipBlanks s with
          | ']' :: s => some (.array [], s)
          | s => readItems fuel [] s
      | '\x7b' :: s =>
          match skipBlanks s with
          | '\x7d' :: s => some (.object .empty, s)
          | s => readMembers fuel .empty s
      | 't' :: s => do return (.bool true, ← word? ['r', 'u', 'e'] s)
      | 'f' :: s => do return (.bool false, ← word? ['a', 'l', 's', 'e'] s)
      | 'n' :: s => do return (.null, ← word? ['u', 'l', 'l'] s)
      | s => readNumber? s

/-- Reads the items of an array from one item on. -/
def readItems : Nat → List Json → List Char → Option (Json × List Char)
  | 0, _, _ => none
  | fuel + 1, read, s => do
      let (j, s) ← readValue fuel s
      match skipBlanks s with
      | ',' :: s => readItems fuel (j :: read) s
      | ']' :: s => return (.array (j :: read).reverse, s)
      | _ => none

/-- Reads the members of an object from one member on. -/
def readMembers : Nat → Dictionary Json → List Char → Option (Json × List Char)
  | 0, _, _ => none
  | fuel + 1, read, s => do
      let s ← expect? '"' s
      let (name, s) ← readText none [] s
      let s ← expect? ':' s
      let (j, s) ← readValue fuel s
      match skipBlanks s with
      | ',' :: s => readMembers fuel (read.put (name, j)) s
      | '\x7d' :: s => return (.object (read.put (name, j)), s)
      | _ => none

end

/-- The value that a text denotes. -/
def ofText (s : String) : Option Json :=
  let cs := s.toList
  match readValue (cs.length + 1) cs with
  | some (j, rest) => if (skipBlanks rest).isEmpty then some j else none
  | none => none

end Json
end FieldRules
