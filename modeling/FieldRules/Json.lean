import FieldRules.Dictionary
import FieldRules.Number.Binary64.Layout
import FieldRules.Text.Quoted
import FieldRules.Number.Integer

/-!
# JSON values

The data of JSON documents.  Numbers written as integers are kept apart from other
numbers.  The members of an object keep their order, and no two of them have one name.

**Results.**
* `decodeText_encode`, `decodeNumber_encode`: optional texts and numbers survive
  encoding and decoding.
-/

namespace FieldRules

/-- A JSON value. -/
inductive Json
  | null
  | bool (b : Bool)
  | integer (n : Int)
  | real (x : Binary64)
  | text (s : String)
  | array (items : List Json)
  | object (members : Dictionary Json)
deriving Repr, Inhabited

/-- What a document was expected to hold. -/
inductive Expectation
  | word32
  | word64
  | text
  | sequence
  | structure (name : String)
  | variant
  | unit
deriving DecidableEq, Repr

def Expectation.wording : Expectation → String
  | .word32 => "u32"
  | .word64 => "usize"
  | .text => "a string"
  | .sequence => "a sequence"
  | .structure name => "struct " ++ name
  | .variant => "string or map"
  | .unit => "unit"

/-- How a document fails to fit: a value of another shape, an integer out of range,
an object that should have a single key, an unknown name, or an array with too many
items. -/
inductive Misfit
  | shape (found : Json) (expected : Expectation)
  | range (n : Int) (expected : Expectation)
  | notSingleKey
  | unknownVariant (name : String) (choices : List String)
  | tooLong (length : Nat)
deriving Repr

namespace Json

/-- The wording of a value that does not fit. -/
def wording : Json → String
  | .null => "null"
  | .bool b => "boolean `" ++ (if b then "true" else "false") ++ "`"
  | .integer n => "integer `" ++ String.ofList (Integer.display n) ++ "`"
  | .real x => "floating point `" ++ String.ofList (Binary64.documentLayout.text x) ++ "`"
  | .text s => "string " ++ Text.quoted s
  | .array _ => "sequence"
  | .object _ => "map"

end Json

namespace Misfit

/-- Names between backquotes, as alternatives. -/
def alternatives : List String → String
  | [a, b] => "`" ++ a ++ "` or `" ++ b ++ "`"
  | names => "one of " ++ ", ".intercalate (names.map fun n => "`" ++ n ++ "`")

def message : Misfit → String
  | .shape found expected =>
      "invalid type: " ++ found.wording ++ ", expected " ++ expected.wording
  | .range n expected =>
      "invalid value: integer `" ++ String.ofList (Integer.display n) ++ "`, expected " ++
        expected.wording
  | .notSingleKey => "invalid value: map, expected map with a single key"
  | .unknownVariant name choices =>
      "unknown variant `" ++ name ++ "`, expected " ++ alternatives choices
  | .tooLong length =>
      "invalid length " ++ toString length ++ ", expected fewer elements in array"

end Misfit

namespace Json

def member? (name : String) : Json → Option Json
  | .object members => members.find? name
  | _ => none

def ofText? : Option String → Json
  | some s => .text s
  | none => .null

def ofNumber? : Option UInt32 → Json
  | some n => .integer n.toNat
  | none => .null

def decodeText : Json → Except Misfit String
  | .text s => .ok s
  | j => .error (.shape j .text)

def decodeText? : Json → Except Misfit (Option String)
  | .null => .ok none
  | j => (decodeText j).map some

/-- The first number that has no 32-bit word: `2 ^ 32`. -/
def word32Limit : Nat := 4294967296

/-- The first number that has no 64-bit word: `2 ^ 64`. -/
def word64Limit : Nat := 18446744073709551616

def decodeBelow (limit : Nat) (expected : Expectation) : Json → Except Misfit Nat
  | .integer n => if 0 ≤ n ∧ n < limit then .ok n.toNat else .error (.range n expected)
  | j => .error (.shape j expected)

def decodeNumber? : Json → Except Misfit (Option UInt32)
  | .null => .ok none
  | j => (decodeBelow word32Limit .word32 j).map fun n => some (UInt32.ofNat n)

def decodeTextItems : List Json → Except Misfit (List String)
  | [] => .ok []
  | j :: js => do
      let s ← decodeText j
      let ss ← decodeTextItems js
      return s :: ss

def decodeTexts : Json → Except Misfit (List String)
  | .array items => decodeTextItems items
  | j => .error (.shape j .sequence)

def decodeName {α : Type} (names : List (String × α)) (name : String) : Except Misfit α :=
  match names.lookup name with
  | some a => .ok a
  | none => .error (.unknownVariant name (names.map Prod.fst))

/-- Reads one of some named values: its name, or an object whose only member has
that name and the value null. -/
def decodeVariant {α : Type} (names : List (String × α)) : Json → Except Misfit α
  | .text name => decodeName names name
  | .object members =>
      match members.toList with
      | [(name, j)] => do
          let a ← decodeName names name
          match j with
          | .null => return a
          | j => throw (.shape j .unit)
      | _ => .error .notSingleKey
  | j => .error (.shape j .variant)

theorem decodeText_encode (s : Option String) : decodeText? (ofText? s) = .ok s := by
  cases s <;> rfl

theorem decodeBelow_of_lt {limit n : Nat} (expected : Expectation) (h : n < limit) :
    decodeBelow limit expected (.integer n) = .ok n := by
  have h' : (0 : Int) ≤ n ∧ (n : Int) < limit := ⟨by omega, by omega⟩
  rw [decodeBelow, if_pos h', Int.toNat_natCast]

theorem decodeNumber_encode (n : Option UInt32) : decodeNumber? (ofNumber? n) = .ok n := by
  cases n with
  | none => rw [ofNumber?, decodeNumber?]
  | some n =>
      have h : decodeBelow word32Limit .word32 (.integer n.toNat) = .ok n.toNat :=
        decodeBelow_of_lt .word32 n.toNat_lt
      rw [ofNumber?, decodeNumber?, h, Except.map, UInt32.ofNat_toNat]
      exact fun hn => nomatch hn

end Json
end FieldRules
