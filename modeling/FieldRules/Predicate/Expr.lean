import FieldRules.Schema.Value

/-!
# Expressions

The tree that conditions are compiled to: comparisons of fields with constants,
joined by `AND` and `OR`.  A field is known by its index in the schema.  An
expression is evaluated from left to right, and a part that cannot change the
result is skipped.

**Results.**
* `length_reads_pos`: an evaluation reads a field.
* `length_reads_le`: an evaluation reads at most one field for each comparison.
-/

namespace FieldRules

/-- An expression over the fields of a record. -/
inductive Expr
  | compare (index : Nat) (field : String) (comparison : Comparison) (constant : Value)
  | and (a b : Expr)
  | or (a b : Expr)
deriving DecidableEq, Repr

namespace Expr

/-- The number of comparisons in an expression. -/
def comparisons : Expr → Nat
  | .compare _ _ _ _ => 1
  | .and a b | .or a b => a.comparisons + b.comparisons

/-- The text of an expression, with parentheses around every part. -/
def display : Expr → String
  | .compare _ field comparison constant =>
      "(" ++ field ++ " " ++ comparison.symbol ++ " " ++ constant.display ++ ")"
  | .and a b => "(" ++ a.display ++ " AND " ++ b.display ++ ")"
  | .or a b => "(" ++ a.display ++ " OR " ++ b.display ++ ")"

def inspect : Expr → String
  | .compare index field comparison constant =>
      Outline.labelled "Compare"
        [("field_index", toString index), ("field", Text.quoted field),
          ("op", comparison.name), ("value", constant.inspect)]
  | .and a b => Outline.application "And" [a.inspect, b.inspect]
  | .or a b => Outline.application "Or" [a.inspect, b.inspect]

section Evaluation

variable (value : Nat → Option Value)

/-- Whether a comparison of a field with a constant holds; without an answer it does
not. -/
def test (index : Nat) (comparison : Comparison) (constant : Value) : Bool :=
  ((value index).bind fun v => Value.compare comparison v constant).getD false

/-- Evaluates an expression, given the values of the fields: the fields that are read,
in order, and the result. -/
def run : Expr → List Nat × Bool
  | .compare index _ comparison constant => ([index], test value index comparison constant)
  | .and a b =>
      let left := a.run
      if left.2 then (left.1 ++ b.run.1, b.run.2) else left
  | .or a b =>
      let left := a.run
      if left.2 then left else (left.1 ++ b.run.1, b.run.2)

/-- Whether an expression holds. -/
def holds (e : Expr) : Bool := (e.run value).2

/-- The fields that an evaluation reads, in order. -/
def reads (e : Expr) : List Nat := (e.run value).1

@[simp] theorem holds_compare (index : Nat) (field : String) (comparison : Comparison)
    (constant : Value) :
    (compare index field comparison constant).holds value =
      test value index comparison constant := rfl

@[simp] theorem holds_and (a b : Expr) :
    (and a b).holds value = (a.holds value && b.holds value) := by
  unfold holds
  rw [run]
  cases h : (a.run value).2 <;> simp [h]

@[simp] theorem holds_or (a b : Expr) :
    (or a b).holds value = (a.holds value || b.holds value) := by
  unfold holds
  rw [run]
  cases h : (a.run value).2 <;> simp [h]

@[simp] theorem reads_compare (index : Nat) (field : String) (comparison : Comparison)
    (constant : Value) :
    (compare index field comparison constant).reads value = [index] := rfl

@[simp] theorem reads_and (a b : Expr) :
    (and a b).reads value =
      a.reads value ++ if a.holds value then b.reads value else [] := by
  unfold reads holds
  rw [run]
  cases (a.run value).2 <;> simp

@[simp] theorem reads_or (a b : Expr) :
    (or a b).reads value =
      a.reads value ++ if a.holds value then [] else b.reads value := by
  unfold reads holds
  rw [run]
  cases (a.run value).2 <;> simp

end Evaluation

/-- An evaluation reads a field: the comparison furthest to the left is always made. -/
theorem length_reads_pos (value : Nat → Option Value) (e : Expr) :
    0 < (e.reads value).length := by
  induction e with
  | compare => simp
  | and a b iha _ => rw [reads_and, List.length_append]; omega
  | or a b iha _ => rw [reads_or, List.length_append]; omega

/-- An evaluation reads at most one field for each comparison. -/
theorem length_reads_le (value : Nat → Option Value) (e : Expr) :
    (e.reads value).length ≤ e.comparisons := by
  induction e with
  | compare => simp [comparisons]
  | and a b iha ihb =>
      simp only [reads_and, comparisons, List.length_append]
      split
      · omega
      · simp only [List.length_nil]; omega
  | or a b iha ihb =>
      simp only [reads_or, comparisons, List.length_append]
      split
      · simp only [List.length_nil]; omega
      · omega

end Expr
end FieldRules
