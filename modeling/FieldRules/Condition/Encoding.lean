import FieldRules.Condition

/-!
# The encoding of condition lists

A list of conditions as bytes, for a digest to be taken of.  Every text and every
list comes after its length, and every optional part after a byte that tells
whether it is there, so that no two parts run into each other.  The nominal data
type and the number of the parent are left out: they change nothing.

**Results.**
* `KeyMode.code_injective`: the modes have different codes.
-/

namespace FieldRules

/-- What identifies a list of conditions: its structure, which is the property
name, operator and number of every top-level condition, or all of its content. -/
inductive KeyMode
  | structural
  | content
deriving DecidableEq, Repr, Inhabited

namespace KeyMode

def name : KeyMode → String
  | .structural => "structural"
  | .content => "content"

def inspect : KeyMode → String
  | .structural => "Structural"
  | .content => "Content"

def all : List KeyMode := [.structural, .content]

/-- The place of a mode among both. -/
def code : KeyMode → UInt8
  | .structural => 0
  | .content => 1

/-- The modes have different codes. -/
theorem code_injective {m n : KeyMode} (h : m.code = n.code) : m = n := by
  cases m <;> cases n <;> first | rfl | exact absurd h (by decide)

end KeyMode

namespace Encoding

/-- The lowest `count` bytes of a number, the lowest byte first. -/
def littleEndian : Nat → Nat → List UInt8
  | 0, _ => []
  | count + 1, n => UInt8.ofNat n :: littleEndian count (n / 256)

def ofLength (n : Nat) : List UInt8 :=
  littleEndian 8 n

/-- A text: the number of its bytes, and its bytes. -/
def ofText (s : String) : List UInt8 :=
  ofLength s.utf8ByteSize ++ s.toUTF8.data.toList

/-- An optional part after a byte that tells whether it is there. -/
def ofOption {α : Type} (f : α → List UInt8) : Option α → List UInt8
  | none => [0]
  | some a => 1 :: f a

def ofNumber (n : UInt32) : List UInt8 :=
  littleEndian 4 n.toNat

def ofTexts (ss : List String) : List UInt8 :=
  ofLength ss.length ++ ss.flatMap ofText

/-- The part of a clause that belongs to its structure. -/
def ofStructure (c : Clause) : List UInt8 :=
  ofText c.property ++ [c.operator.code] ++ ofOption ofNumber c.id

def ofClause (c : Clause) : List UInt8 :=
  ofStructure c ++ [c.connector.code] ++ ofOption ofText c.value ++ ofTexts c.values ++
    ofOption ofText c.minValue ++ ofOption ofText c.maxValue

mutual

/-- A condition with all that has a meaning, the nested ones included. -/
def ofCondition : Condition → List UInt8
  | ⟨clause, nested⟩ => ofClause clause ++ ofLength nested.length ++ ofConditions nested

def ofConditions : List Condition → List UInt8
  | [] => []
  | c :: cs => ofCondition c ++ ofConditions cs

end

/-- A list of conditions with the parts that a key mode looks at. -/
def ofList (mode : KeyMode) (conditions : List Condition) : List UInt8 :=
  mode.code :: (ofLength conditions.length ++
    match mode with
    | .structural => conditions.flatMap fun c => ofStructure c.clause
    | .content => ofConditions conditions)

@[simp] theorem littleEndian_length (count n : Nat) : (littleEndian count n).length = count := by
  induction count generalizing n with
  | zero => rfl
  | succ count ih => simp [littleEndian, ih]

end Encoding
end FieldRules
