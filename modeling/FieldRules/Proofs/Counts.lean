import FieldRules.Proofs.Compilation
import FieldRules.Proofs.Operands
import Mathlib.Data.List.Induction

/-!
# How many comparisons a clause makes

The comparisons of a test, counted from the clause alone: one for each bound that is given, and
without bounds one for each candidate that is not empty, or one for the operand.

**Results.**
* `Clause.comparisons_of_compile`: the test of a clause makes as many comparisons as counted.
* `Condition.respects_comparisons`: tests that are joined make them all.
-/

namespace FieldRules

/-- The number of comparisons that a clause asks for. -/
def Clause.comparisons (c : Clause) : Nat :=
  match Operand.given? c.minValue, Operand.given? c.maxValue with
  | some _, some _ => 2
  | some _, none | none, some _ => 1
  | none, none => if c.operator = .isIn then (Operand.givenAll c.values).length else 1

namespace Clause

variable {ρ : Type} {schema : Schema ρ} {formats : List String}

/-- A choice of values makes one comparison for each of them. -/
theorem comparisons_anyOf (t : Target) (v : Value) (vs : List Value) :
    (anyOf t v vs).comparisons = (v :: vs).length := by
  induction vs using List.reverseRecOn with
  | nil => rfl
  | append_singleton vs w ih =>
      rw [anyOf_concat, Expr.comparisons, ih, leaf, Expr.comparisons, ← List.cons_append,
        List.length_append, List.length_singleton]

/-- The test of a clause makes as many comparisons as the clause asks for. -/
theorem comparisons_of_compile {c : Clause} {e : Expr} (h : c.compile schema formats = .ok e) :
    e.comparisons = c.comparisons := by
  obtain ⟨t, -, h⟩ := compile_becomes h
  unfold comparisons
  cases h with
  | atLeast lower upper _ =>
      obtain ⟨lo, hlo, -⟩ := given_of_coerce lower
      simp only [hlo, not_given_of_coerce upper]
      rfl
  | atMost lower upper _ =>
      obtain ⟨hi, hhi, -⟩ := given_of_coerce upper
      simp only [hhi, not_given_of_coerce lower]
      rfl
  | within lower upper _ =>
      obtain ⟨lo, hlo, -⟩ := given_of_coerce lower
      obtain ⟨hi, hhi, -⟩ := given_of_coerce upper
      simp only [hlo, hhi]
      rfl
  | single lower upper operator _ _ =>
      have hin : c.operator ≠ .isIn := fun hin => by
        rw [hin] at operator
        cases operator
      simp only [not_given_of_coerce lower, not_given_of_coerce upper, if_neg hin]
      rfl
  | oneOf lower upper operator values =>
      simp only [not_given_of_coerce lower, not_given_of_coerce upper, if_pos operator]
      rw [comparisons_anyOf, (candidates_eq_ok values).length_eq]

end Clause

namespace Condition

variable {ρ : Type} (schema : Schema ρ) (formats : List String)

/-- The number of comparisons adds up along the structure of conditions. -/
theorem respects_comparisons :
    Respects schema formats Clause.comparisons (fun _ m n => m + n)
      fun n e => e.comparisons = n where
  clause _ _ h := Clause.comparisons_of_compile h
  joined k m n x y hx hy := by
    cases k <;> rw [Connector.join, Expr.comparisons, hx, hy]

end Condition
end FieldRules
