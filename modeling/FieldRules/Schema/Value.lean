import FieldRules.Number.Decimal
import FieldRules.Number.Integer
import FieldRules.Number.Binary64.Layout
import FieldRules.Calendar.DateTime
import FieldRules.Text.Outline

/-!
# Values and comparisons

A value is what a field of a record holds and what an operand text denotes.  Two
values of one kind can be compared: numbers and date-times by their order, truth
values, texts and enumeration members only for equality.  Values of different
kinds are never comparable.

**Results.**
* `compare_ordered`: a comparison of ordered values is read off their order.
* `order?_swap`: exchanging the operands turns the order round.
-/

namespace FieldRules

/-- How two values are compared. -/
inductive Comparison
  | equal
  | greater
  | greaterOrEqual
  | less
  | lessOrEqual
deriving DecidableEq, Repr

namespace Comparison

def symbol : Comparison → String
  | .equal => "=="
  | .greater => ">"
  | .greaterOrEqual => ">="
  | .less => "<"
  | .lessOrEqual => "<="

def name : Comparison → String
  | .equal => "Eq"
  | .greater => "Gt"
  | .greaterOrEqual => "Gte"
  | .less => "Lt"
  | .lessOrEqual => "Lte"

/-- Whether a comparison holds between values in a given order. -/
def holds : Comparison → Ordering → Bool
  | .equal, o => o == .eq
  | .greater, o => o == .gt
  | .greaterOrEqual, o => o != .lt
  | .less, o => o == .lt
  | .lessOrEqual, o => o != .gt

end Comparison

/-- A value of one of seven kinds. -/
inductive Value
  | int (n : Int64)
  | float (x : Binary64)
  | decimal (d : Decimal)
  | bool (b : Bool)
  | dateTime (t : DateTime)
  | text (s : String)
  | member (name : String)
deriving DecidableEq, Repr

namespace Value

/-- The order of two values, where there is one. -/
def order? : Value → Value → Option Ordering
  | .int a, .int b => some (Ord.compare a.toInt b.toInt)
  | .float a, .float b => a.compare? b
  | .decimal a, .decimal b => some (a.compare b)
  | .dateTime a, .dateTime b => some (a.compare b)
  | _, _ => none

/-- Whether two values are equal: numbers by what they denote, so that nothing
equals what is not a number. -/
def same (a b : Value) : Bool :=
  match a, b with
  | .bool a, .bool b => a == b
  | .text a, .text b => a == b
  | .member a, .member b => a == b
  | a, b => a.order? b == some .eq

/-- An answer that is only given for equality. -/
def equalityOnly (c : Comparison) (answer : Bool) : Option Bool :=
  if c = .equal then some answer else none

/-- Compares two values.  There is no answer for values of different kinds, for
an order on truth values, texts or members, and where a float is not a number. -/
def compare (c : Comparison) (a b : Value) : Option Bool :=
  match a, b with
  | .bool a, .bool b => equalityOnly c (a == b)
  | .text a, .text b => equalityOnly c (a == b)
  | .member a, .member b => equalityOnly c (a == b)
  | a, b => (a.order? b).map c.holds

def boolText (b : Bool) : String :=
  if b then "true" else "false"

/-- The text of a value.  Texts stand between quotes as they are. -/
def display : Value → String
  | .int n => String.ofList (Integer.display n.toInt)
  | .float x => String.ofList x.display
  | .decimal d => String.ofList d.display
  | .bool b => boolText b
  | .dateTime t => String.ofList t.display
  | .text s => "\"" ++ s ++ "\""
  | .member name => name

def inspect : Value → String
  | .int n => Outline.application "Int" [String.ofList (Integer.display n.toInt)]
  | .float x => Outline.application "Float" [String.ofList x.inspect]
  | .decimal d => Outline.application "Decimal" [String.ofList d.display]
  | .bool b => Outline.application "Bool" [boolText b]
  | .dateTime t => Outline.application "DateTime" [String.ofList t.inspect]
  | .text s => Outline.application "Text" [Text.quoted s]
  | .member name => Outline.application "Enum" [Text.quoted name]

/-- A comparison of ordered values is read off their order. -/
theorem compare_ordered {c : Comparison} {a b : Value} {o : Ordering}
    (h : a.order? b = some o) : compare c a b = some (c.holds o) := by
  cases a <;> cases b <;> simp_all [order?, compare]

/-- Exchanging the operands turns the order round. -/
theorem order?_swap (a b : Value) : b.order? a = (a.order? b).map Ordering.swap := by
  have hint : ∀ m n : Int, Ord.compare n m = (Ord.compare m n).swap :=
    fun m n => Std.OrientedOrd.eq_swap
  have hnat : ∀ m n : Nat, Ord.compare n m = (Ord.compare m n).swap :=
    fun m n => Std.OrientedOrd.eq_swap
  cases a <;> cases b <;> simp only [order?, Option.map_none, Option.map_some]
  case int.int a b => rw [hint]
  case float.float a b =>
    unfold Binary64.compare?
    rw [Bool.or_comm, hint a.key b.key]
    split <;> rfl
  case decimal.decimal a b =>
    unfold Decimal.compare
    rw [hint]
  case dateTime.dateTime a b =>
    simp only [DateTime.compare, Date.compare, TimeOfDay.compare, Ordering.swap_then,
      hint a.date.year b.date.year, hnat a.date.month b.date.month,
      hnat a.date.day b.date.day, hnat a.time.second b.time.second,
      hnat a.time.nano b.time.nano]

end Value
end FieldRules
