import FieldRules.Proofs.Comparison
import FieldRules.Proofs.Operands
import Mathlib.Data.List.Induction

/-!
# Compiled expressions are well typed

Every leaf of a compiled expression reads a field that is there, under its name, and
compares it with a constant of the field's own type; comparisons other than equality
stand on ordered types only.  So an evaluation never meets values of two types or a
comparison that is not defined, and the only comparison without an answer is one with a
float that is not a number.

**Results.**
* `Operand.coerce_declares`: what an operand denotes belongs to the type of its field.
* `Clause.leaves_test`: the leaves of every kind of test are tests of the field that the
  clause names.
* `Predicate.leaf_wellTyped`: every leaf of a predicate is well typed.
-/

namespace FieldRules

/-- Whether a value belongs to a type: it is of the kind that the type has, and a member
of an enumeration is one of those declared. -/
def FieldType.declares : FieldType → Value → Bool
  | .enum e, .member name => decide (name ∈ e.members)
  | type, v => type.admits v

theorem FieldType.admits_of_declares {type : FieldType} {v : Value}
    (h : type.declares v = true) : type.admits v = true := by
  cases type with
  | enum e =>
      cases v with
      | member name => rfl
      | _ => exact h
  | _ => exact h

theorem FieldType.isOrdered_iff (type : FieldType) :
    type.isOrdered = true ↔
      type = .int ∨ type = .float ∨ type = .decimal ∨ type = .dateTime := by
  cases type <;> simp [isOrdered]

/-- A comparison of a field with a constant. -/
structure Leaf where
  index : Nat
  field : String
  comparison : Comparison
  constant : Value

/-- The comparisons in an expression, from left to right. -/
def Expr.leaves : Expr → List Leaf
  | .compare index field comparison constant => [⟨index, field, comparison, constant⟩]
  | .and a b | .or a b => a.leaves ++ b.leaves

theorem Expr.leaves_join (k : Connector) (a b : Expr) :
    (k.join a b).leaves = a.leaves ++ b.leaves := by
  cases k <;> rfl

/-- A leaf is well typed on a field: the field stands at its index and has its name, the
constant belongs to the field's type, and only ordered types are compared otherwise than
for equality. -/
structure Leaf.WellTyped {ρ : Type} (schema : Schema ρ) (l : Leaf) (f : Field ρ) : Prop where
  stored : schema.fields[l.index]? = some f
  named : l.field = f.name
  constant : f.type.declares l.constant = true
  ordered : l.comparison ≠ .equal →
    f.type = .int ∨ f.type = .float ∨ f.type = .decimal ∨ f.type = .dateTime

/-- A leaf tests a field: its name is resolved to the field, the constant belongs to the
field's type, and a comparison other than for equality is defined there. -/
structure Leaf.Tests {ρ : Type} (schema : Schema ρ) (l : Leaf) (t : Target) : Prop where
  resolved : schema.resolve? l.field = some t
  index : l.index = t.index
  constant : t.type.declares l.constant = true
  ordered : l.comparison ≠ .equal → t.type.isOrdered = true

theorem Leaf.Tests.wellTyped {ρ : Type} {schema : Schema ρ} {l : Leaf} {t : Target}
    (h : l.Tests schema t) : ∃ f, l.WellTyped schema f := by
  obtain ⟨f, hstored, hname, -, htype⟩ := Schema.resolve?_eq_some_iff.mp h.resolved
  refine ⟨f, ?_, hname.symm, htype ▸ h.constant, fun hne => ?_⟩
  · exact h.index ▸ hstored
  · exact (FieldType.isOrdered_iff f.type).mp (htype ▸ h.ordered hne)

namespace Operand

/-- What is read for a type is a value of the type that it declares. -/
theorem read_declares {formats : List String} {s : List Char} {type : FieldType} {v : Value}
    (h : read formats s type = .ok v) : type.declares v = true := by
  cases type with
  | enum e =>
      rw [read] at h
      split at h
      next hmember =>
        cases h
        exact decide_eq_true hmember
      next => cases h
  | _ => exact read_admits h

/-- What an operand denotes belongs to the type of its field. -/
theorem coerce_declares {formats : List String} {type : FieldType} {raw : String} {v : Value}
    (h : coerce formats type raw = .ok (some v)) : type.declares v = true := by
  unfold coerce at h
  split at h
  next => cases h
  next =>
    split at h
    next =>
      cases h
      rfl
    next =>
      cases hr : read formats (Text.trim raw.toList) type with
      | error e => simp [hr, Except.map] at h
      | ok w =>
          simp only [hr, Except.map, Except.ok.injEq, Option.some.injEq] at h
          exact h ▸ read_declares hr

end Operand

section Compiled

variable {ρ : Type} {schema : Schema ρ} {formats : List String}

namespace Clause

variable {c : Clause} {t : Target}

theorem declares_of_coerce {raw : Option String} {v : Value}
    (h : coerce formats t raw = .ok (some v)) : t.type.declares v = true := by
  obtain ⟨s, -, hs⟩ := given_of_coerce h
  exact Operand.coerce_declares hs

/-- The values of candidates belong to the type of the field. -/
theorem declares_of_candidates {raws : List String} {vs : List Value}
    (h : candidates formats t raws = .ok vs) : ∀ v ∈ vs, t.type.declares v = true := by
  have hvs := candidates_eq_ok h
  generalize Operand.givenAll raws = ss at hvs
  clear h
  induction hvs with
  | nil => simp
  | cons hs _ ih =>
      intro w hw
      rcases List.mem_cons.mp hw with rfl | hw
      · exact Operand.coerce_declares hs
      · exact ih w hw

theorem test_leaf {name : String} (ht : schema.resolve? name = some t) {k : Comparison}
    {v : Value} (hv : t.type.declares v = true)
    (hk : k ≠ .equal → t.type.isOrdered = true) :
    ∀ l ∈ (leaf t k v).leaves, l.Tests schema t := by
  obtain ⟨f, -, -, htname, -⟩ := Schema.resolve?_eq_some_iff.mp ht
  intro l hl
  rw [leaf, Expr.leaves, List.mem_singleton] at hl
  subst hl
  exact ⟨htname ▸ ht, rfl, hv, hk⟩

/-- The leaves of a test for one of several values are tests for equality. -/
theorem test_anyOf {name : String} (ht : schema.resolve? name = some t)
    {v : Value} {vs : List Value} (hvs : ∀ w ∈ v :: vs, t.type.declares w = true) :
    ∀ l ∈ (anyOf t v vs).leaves, l.Tests schema t := by
  induction vs using List.reverseRecOn with
  | nil => exact test_leaf ht (hvs v List.mem_cons_self) (fun hne => absurd rfl hne)
  | append_singleton vs w ih =>
      rw [← List.cons_append] at hvs
      intro l hl
      rw [anyOf_concat] at hl
      rcases List.mem_append.mp hl with hl | hl
      · exact ih (fun u hu => hvs u (List.mem_append_left _ hu)) l hl
      · have hw := hvs w (List.mem_append_right _ List.mem_cons_self)
        exact test_leaf ht hw (fun hne => absurd rfl hne) l hl

/-- Operators compare otherwise than for equality only if they need an order. -/
theorem needsOrder_of_comparison {operator : Operator} {k : Comparison}
    (h : operator.comparison? = some k) (hk : k ≠ .equal) : operator.needsOrder = true := by
  cases operator <;> cases h <;> first | rfl | exact absurd rfl hk

/-- The leaves of every kind of test of a clause are tests of the field that it names. -/
theorem leaves_test {e : Expr} (h : c.compile schema formats = .ok e) :
    ∀ l ∈ e.leaves, ∃ t, l.Tests schema t := by
  obtain ⟨t, ht, h⟩ := compile_becomes h
  suffices htests : ∀ l ∈ e.leaves, l.Tests schema t from fun l hl => ⟨t, htests l hl⟩
  cases h with
  | atLeast lower _ ordered =>
      exact test_leaf ht (declares_of_coerce lower) (fun _ => ordered)
  | atMost _ upper ordered =>
      exact test_leaf ht (declares_of_coerce upper) (fun _ => ordered)
  | within lower upper ordered =>
      intro l hl
      rcases List.mem_append.mp hl with hl | hl
      · exact test_leaf ht (declares_of_coerce lower) (fun _ => ordered) l hl
      · exact test_leaf ht (declares_of_coerce upper) (fun _ => ordered) l hl
  | single _ _ operator ordered value =>
      exact test_leaf ht (declares_of_coerce value)
        (fun hk => ordered (needsOrder_of_comparison operator hk))
  | oneOf _ _ _ values => exact test_anyOf ht (declares_of_candidates values)

end Clause

/-- What holds of the leaves of every clause holds of the leaves of an expression. -/
theorem Condition.respects_leaves {P : Leaf → Prop}
    (hclause : ∀ (c : Clause) (e : Expr), c.compile schema formats = .ok e →
      ∀ l ∈ e.leaves, P l) :
    Respects schema formats (fun _ => ()) (fun _ _ _ => ())
      (fun _ e => ∀ l ∈ e.leaves, P l) where
  clause c e h := hclause c e h
  joined k _ _ x y hx hy := by
    intro l hl
    rw [Expr.leaves_join] at hl
    rcases List.mem_append.mp hl with hl | hl
    · exact hx l hl
    · exact hy l hl

/-- All comparisons of a compiled condition are well typed if those of its clauses are. -/
theorem Condition.respects_wellTyped :
    Respects schema formats (fun _ => ()) (fun _ _ _ => ())
      (fun _ e => ∀ l ∈ e.leaves, ∃ f, l.WellTyped schema f) :=
  respects_leaves fun _ _ h l hl =>
    let ⟨_, ht⟩ := Clause.leaves_test h l hl
    ht.wellTyped

/-- Every leaf of a predicate tests the field that it names. -/
theorem Predicate.leaves_test {conditions : List Condition} {p : Predicate ρ}
    (h : compile schema formats conditions = .ok p) :
    ∀ l ∈ p.expr.leaves, ∃ t, l.Tests schema t := by
  obtain ⟨-, hexpr⟩ := compile_eq_ok h
  obtain ⟨_, _, _, hleaves⟩ := Condition.compileAll_fold
    (Condition.respects_leaves fun _ _ hclause => Clause.leaves_test hclause) hexpr
  exact hleaves

/-- **Compiled predicates are well typed.**  Every leaf of a predicate is well typed on a
field of the schema; its index is in range, so that every record has a value there, and
this value compares with the constant, unless one of them is not a number. -/
theorem Predicate.leaf_wellTyped {conditions : List Condition} {p : Predicate ρ}
    (h : compile schema formats conditions = .ok p) :
    ∀ l ∈ p.expr.leaves, ∃ f, l.WellTyped schema f ∧ l.index < schema.size ∧
      ∀ record, p.value record l.index = some (f.read record) ∧
        (Value.compare l.comparison (f.read record) l.constant = none ↔
          (f.read record).isNaN = true ∨ l.constant.isNaN = true) := by
  obtain ⟨hschema, hexpr⟩ := compile_eq_ok h
  obtain ⟨_, _, _, hleaves⟩ := Condition.compileAll_fold Condition.respects_wellTyped hexpr
  intro l hl
  obtain ⟨f, hf⟩ := hleaves l hl
  have hindex : l.index < schema.size := (List.getElem?_eq_some_iff.mp hf.stored).1
  refine ⟨f, hf, hindex, fun record => ⟨?_, ?_⟩⟩
  · rw [value, hschema, Schema.read?, hf.stored, Option.map_some]
  · exact Value.compare_eq_none_iff_of_admits (FieldType.admits_value f.type (f.get record))
      (FieldType.admits_of_declares hf.constant)
      (fun hne => (FieldType.isOrdered_iff f.type).mpr (hf.ordered hne))

end Compiled

namespace Gauge

/-- The test of the load of a gauge, as the conditions on gauges are compiled to it. -/
def loadLeaf : Leaf := ⟨1, "load", .greater, .float (.nan false)⟩

/-- The load of a gauge is compared with a float, which has no answer as the float is not
a number. -/
theorem loadLeaf_of_rules :
    Predicate.compile schema [] rules = .ok ⟨schema, test⟩ ∧ loadLeaf ∈ test.leaves ∧
      ∃ f, loadLeaf.WellTyped schema f ∧
        ∀ record, Value.compare loadLeaf.comparison (f.read record) loadLeaf.constant = none := by
  have hmem : loadLeaf ∈ test.leaves := by
    simp [test, Expr.leaves, loadLeaf]
  refine ⟨compile_rules [], hmem, ?_⟩
  obtain ⟨f, hf, -, hread⟩ := Predicate.leaf_wellTyped (compile_rules []) loadLeaf hmem
  exact ⟨f, hf, fun record => (hread record).2.mpr (.inr rfl)⟩

end Gauge

end FieldRules
