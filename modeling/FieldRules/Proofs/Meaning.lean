import FieldRules.Proofs.Comparison
import FieldRules.Proofs.Compilation
import FieldRules.Proofs.Operands
import Mathlib.Data.List.Induction

/-!
# What conditions mean

Conditions read directly, without compiling them.  A clause says how the field of its
name stands to the values that its operands denote: bounds that are given are all that
counts, and otherwise it is the operator.  A condition says what its clause and the
clauses of all conditions nested in it say.  A list of conditions is read from left to
right, the truth so far joined to that of each further condition by the connector of
that condition.

**Results.**
* `Clause.holds_of_compile`: the test of a clause holds of the records of which the
  clause is true.
* `Predicate.evaluate_eq_truthOf`: a predicate holds of the records of which its
  conditions are true.
-/

namespace FieldRules

/-- The field with a name. -/
def Schema.field? {ρ : Type} (s : Schema ρ) (name : String) : Option (Field ρ) :=
  s.fields.find? fun f => f.name = name

/-- Whether a value stands in a relation to another one.  What is not a number stands
in no relation to anything. -/
def Value.meets (c : Comparison) (a b : Value) : Bool :=
  !a.isNaN && !b.isNaN && compare c a b == some true

/-- Joins two truth values. -/
def Connector.apply : Connector → Bool → Bool → Bool
  | .and, a, b => a && b
  | .or, a, b => a || b

section Reading

variable {ρ : Type} (schema : Schema ρ) (formats : List String) (record : ρ)

/-- Whether the field with a name stands in a relation to the value that a text denotes
for it. -/
def Schema.meets (name : String) (c : Comparison) (text : String) : Bool :=
  match schema.field? name with
  | none => false
  | some f =>
      match Operand.coerce formats f.type text with
      | .ok (some v) => Value.meets c (f.read record) v
      | _ => false

/-- Whether the operator of a clause is true of a record.  A clause whose operator is
`Between` needs bounds. -/
def Clause.operatorTruth (c : Clause) : Bool :=
  let meets := schema.meets formats record c.property
  let value := Operand.given? c.value
  match c.operator with
  | .equals => value.any (meets .equal)
  | .greaterThan => value.any (meets .greater)
  | .lessThan => value.any (meets .less)
  | .greaterThanOrEqualTo => value.any (meets .greaterOrEqual)
  | .lessThanOrEqualTo => value.any (meets .lessOrEqual)
  | .isIn => (Operand.givenAll c.values).any (meets .equal)
  | .between => false

/-- Whether a clause is true of a record.  If bounds are given, the field must lie within
them, whatever the operator says. -/
def Clause.truth (c : Clause) : Bool :=
  let meets := schema.meets formats record c.property
  match Operand.given? c.minValue, Operand.given? c.maxValue with
  | some lower, some upper => meets .greaterOrEqual lower && meets .lessOrEqual upper
  | some lower, none => meets .greaterOrEqual lower
  | none, some upper => meets .lessOrEqual upper
  | none, none => c.operatorTruth schema formats record

/-- Whether a condition is true of a record: its clause and those of all conditions
nested in it, at any depth, are. -/
def Condition.truth (c : Condition) : Bool :=
  (clauses ⟨0, []⟩ c).all fun x => x.2.truth schema formats record

/-- Whether a list of conditions is true of a record. -/
def Condition.truthOf : List Condition → Bool
  | [] => false
  | c :: cs =>
      cs.foldl (fun sofar d => d.clause.connector.apply sofar (d.truth schema formats record))
        (c.truth schema formats record)

end Reading

/-- The field with a name is the only one that has it. -/
theorem Schema.field?_eq_some_iff {ρ : Type} {s : Schema ρ} {name : String} {f : Field ρ} :
    s.field? name = some f ↔ f ∈ s.fields ∧ f.name = name :=
  find?_eq_some_iff_of_nodup s.distinct

/-- A name is resolved to the place of the field with that name. -/
theorem Schema.field?_of_resolve? {ρ : Type} {s : Schema ρ} {name : String} {t : Target}
    (h : s.resolve? name = some t) :
    ∃ f, s.field? name = some f ∧ s.fields[t.index]? = some f ∧
      t.name = f.name ∧ t.type = f.type := by
  obtain ⟨f, hget, hname, htname, htype⟩ := resolve?_eq_some_iff.mp h
  have hfield : s.field? name = some f :=
    field?_eq_some_iff.mpr ⟨List.mem_of_getElem? hget, hname⟩
  exact ⟨f, hfield, hget, htname.trans hname.symm, htype⟩

section Tests

/-- A test compares the value that it reads. -/
theorem Expr.test_eq_meets {value : Nat → Option Value} {index : Nat} {w : Value}
    (hw : value index = some w) (c : Comparison) (v : Value) :
    test value index c v = Value.meets c w v := by
  unfold test Value.meets
  rw [hw, Option.bind_some]
  by_cases hnan : w.isNaN = true ∨ v.isNaN = true
  · rw [Value.compare_eq_none_of_isNaN hnan]
    rcases hnan with hw | hv
    · simp [hw]
    · simp [hv]
  · rw [not_or, Bool.not_eq_true, Bool.not_eq_true] at hnan
    rw [hnan.1, hnan.2]
    cases Value.compare c w v with
    | none => rfl
    | some answer => cases answer <;> rfl

variable {ρ : Type} {schema : Schema ρ} {formats : List String} {record : ρ}
variable {name : String} {t : Target}

/-- A leaf on the field of a name says how the field stands to what a text denotes. -/
theorem Clause.holds_leaf (ht : schema.resolve? name = some t) (c : Comparison)
    {s : String} {v : Value} (hs : Operand.coerce formats t.type s = .ok (some v)) :
    (leaf t c v).holds (fun i => schema.read? i record) =
      schema.meets formats record name c s := by
  obtain ⟨f, hfield, hget, -, htype⟩ := Schema.field?_of_resolve? ht
  have hread : schema.read? t.index record = some (f.read record) := by
    rw [Schema.read?, hget, Option.map_some]
  rw [htype] at hs
  rw [leaf, Expr.holds_compare, Expr.test_eq_meets hread, Schema.meets, hfield]
  simp only [hs]

/-- The test for one of several values holds if a leaf with one of them does. -/
theorem Clause.holds_anyOf (value : Nat → Option Value) (v : Value) (vs : List Value) :
    (anyOf t v vs).holds value = (v :: vs).any fun w => (leaf t .equal w).holds value := by
  induction vs using List.reverseRecOn with
  | nil => rw [List.any_cons, List.any_nil, Bool.or_false]; rfl
  | append_singleton vs w ih =>
      rw [anyOf_concat, Expr.holds_or, ih, ← List.cons_append, List.any_append,
        List.any_cons (a := w), List.any_nil, Bool.or_false]

/-- Leaves with the values of some texts say what the texts say. -/
theorem Clause.any_holds_leaf (ht : schema.resolve? name = some t) {ss : List String}
    {vs : List Value}
    (hvs : List.Forall₂ (fun s v => Operand.coerce formats t.type s = .ok (some v)) ss vs) :
    (vs.any fun w => (leaf t .equal w).holds fun i => schema.read? i record) =
      ss.any (schema.meets formats record name .equal) := by
  induction hvs with
  | nil => rfl
  | cons hs _ ih => rw [List.any_cons, List.any_cons, ih, holds_leaf ht .equal hs]

/-- The test of a clause holds of the records of which the clause is true. -/
theorem Clause.holds_of_compile {c : Clause} {e : Expr} (h : c.compile schema formats = .ok e) :
    e.holds (fun i => schema.read? i record) = c.truth schema formats record := by
  obtain ⟨t, ht, h⟩ := compile_becomes h
  unfold truth
  cases h with
  | atLeast lower upper _ =>
      obtain ⟨lo, hlo, hv⟩ := given_of_coerce lower
      simp only [hlo, not_given_of_coerce upper]
      exact holds_leaf ht .greaterOrEqual hv
  | atMost lower upper _ =>
      obtain ⟨hi, hhi, hv⟩ := given_of_coerce upper
      simp only [not_given_of_coerce lower, hhi]
      exact holds_leaf ht .lessOrEqual hv
  | within lower upper _ =>
      obtain ⟨lo, hlo, hv⟩ := given_of_coerce lower
      obtain ⟨hi, hhi, hw⟩ := given_of_coerce upper
      simp only [hlo, hhi]
      rw [Expr.holds_and, holds_leaf ht .greaterOrEqual hv, holds_leaf ht .lessOrEqual hw]
  | @single comparison v lower upper operator _ value =>
      obtain ⟨s, hs, hv⟩ := given_of_coerce value
      simp only [not_given_of_coerce lower, not_given_of_coerce upper]
      rw [holds_leaf ht comparison hv, operatorTruth]
      cases hop : c.operator <;> rw [hop] at operator <;> cases operator <;> simp [hs]
  | @oneOf v vs lower upper operator values =>
      simp only [not_given_of_coerce lower, not_given_of_coerce upper]
      rw [holds_anyOf, any_holds_leaf ht (candidates_eq_ok values), operatorTruth, operator]

end Tests

section Lists

variable {ρ : Type} (schema : Schema ρ) (formats : List String) (record : ρ)

namespace Condition

/-- Clauses are true together if each of them is. -/
theorem totals_truth :
    Totals (Clause.truth schema formats record) Connector.apply
      fun xs => xs.all fun x => x.2.truth schema formats record where
  nil := Bool.and_true
  cons _ _ := List.all_cons
  append _ _ := List.all_append
  assoc := Bool.and_assoc

/-- The truth of clauses folded over a condition is that of all clauses in it. -/
theorem fold_truth (position : Position) (c : Condition) :
    fold (Clause.truth schema formats record) Connector.apply c =
      (clauses position c).all fun x => x.2.truth schema formats record :=
  fold_eq_total (totals_truth schema formats record) position c

/-- The truth of a list is joined from left to right, each time by the connector of the
condition that comes next. -/
theorem foldRest_truth (cs : List Condition) (a : Bool) :
    foldRest (Clause.truth schema formats record) Connector.apply a cs =
      cs.foldl (fun sofar d =>
        d.clause.connector.apply sofar (d.truth schema formats record)) a := by
  induction cs generalizing a with
  | nil => rfl
  | cons c cs ih =>
      rw [foldRest, ih, List.foldl_cons, fold_truth schema formats record ⟨0, []⟩ c, truth]

/-- Truth follows the structure of conditions as compilation does. -/
theorem respects_truth : Respects schema formats (Clause.truth schema formats record)
    Connector.apply (fun a e => e.holds (fun i => schema.read? i record) = a) where
  clause _ _ h := Clause.holds_of_compile h
  joined k a b x y hx hy := by
    cases k with
    | and => rw [Connector.join, Expr.holds_and, hx, hy, Connector.apply]
    | or => rw [Connector.join, Expr.holds_or, hx, hy, Connector.apply]

end Condition

variable {schema formats} in
/-- **What compiled conditions mean.**  A predicate holds of the records of which the
conditions it was compiled from, read directly, are true. -/
theorem Predicate.evaluate_eq_truthOf {conditions : List Condition} {p : Predicate ρ}
    (h : compile schema formats conditions = .ok p) (record : ρ) :
    p.evaluate record = Condition.truthOf schema formats record conditions := by
  obtain ⟨hschema, hexpr⟩ := compile_eq_ok h
  obtain ⟨first, rest, rfl, hfold⟩ :=
    Condition.compileAll_fold (Condition.respects_truth schema formats record) hexpr
  rw [Condition.foldRest_truth, Condition.fold_truth schema formats record ⟨0, []⟩ first] at hfold
  unfold evaluate value
  rw [hschema, hfold]
  rfl

end Lists

namespace Gauge

/-- A busy gauge of level two satisfies the conditions, and one of level four does not,
although its load is not a number and is compared with what is not a number. -/
theorem evaluate_rules :
    Predicate.compile schema [] rules = .ok ⟨schema, test⟩ ∧
      (⟨schema, test⟩ : Predicate Gauge).evaluate ⟨2, .zero, "Busy"⟩ = true ∧
      (⟨schema, test⟩ : Predicate Gauge).evaluate ⟨4, .nan false, "Busy"⟩ = false :=
  ⟨compile_rules [],
    (Predicate.evaluate_eq_truthOf (compile_rules []) _).trans (by decide),
    (Predicate.evaluate_eq_truthOf (compile_rules []) _).trans (by decide)⟩

end Gauge

end FieldRules
