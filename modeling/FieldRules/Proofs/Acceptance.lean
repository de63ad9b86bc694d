import FieldRules.Proofs.Faults
import FieldRules.Proofs.Typing

/-!
# Which conditions compile

A list of conditions compiles exactly if it is not empty and every clause in it is
acceptable, whatever its depth.  An acceptable clause names a field, every operand and
bound that is given denotes a value of the field's type, whether it is used or not, and
the clause has what its kind of test needs: an order for bounds, and without bounds the
operands of its operator.  `Between` without bounds is no test.

**Results.**
* `Clause.faults_eq_nil_iff`: a clause without faults is acceptable.
* `Predicate.exists_compile_iff_acceptable`: lists of acceptable clauses compile.
-/

namespace FieldRules

/-- The types on which an order is defined. -/
def FieldType.ordered : List FieldType := [.int, .float, .decimal, .dateTime]

/-- A text denotes a value of a type. -/
def Operand.Denotes (formats : List String) (type : FieldType) (s : String) : Prop :=
  ∃ v, coerce formats type s = .ok (some v)

namespace Clause

variable (formats : List String) (type : FieldType)

/-- No bound of a clause is given. -/
def Unbounded (c : Clause) : Prop :=
  Operand.given? c.minValue = none ∧ Operand.given? c.maxValue = none

/-- A clause has what its kind of test needs on a field of a type. -/
inductive HasTest (c : Clause) : Prop
  | bounds (bounded : ¬ c.Unbounded) (ordered : type ∈ FieldType.ordered)
  | equals (unbounded : c.Unbounded) (operator : c.operator = .equals)
      (value : Operand.given? c.value ≠ none)
  | order (unbounded : c.Unbounded)
      (operator : c.operator ∈
        [.greaterThan, .lessThan, .greaterThanOrEqualTo, .lessThanOrEqualTo])
      (value : Operand.given? c.value ≠ none) (ordered : type ∈ FieldType.ordered)
  | oneOf (unbounded : c.Unbounded) (operator : c.operator = .isIn)
      (some : Operand.givenAll c.values ≠ [])
      (all : ∀ s ∈ Operand.givenAll c.values, Operand.Denotes formats type s)

/-- A clause is acceptable on a field of a type: its operand and its bounds, as far as they
are given, denote values of the type, and it has what its test needs. -/
structure AcceptableOn (c : Clause) : Prop where
  value : ∀ s ∈ Operand.given? c.value, Operand.Denotes formats type s
  lower : ∀ s ∈ Operand.given? c.minValue, Operand.Denotes formats type s
  upper : ∀ s ∈ Operand.given? c.maxValue, Operand.Denotes formats type s
  test : c.HasTest formats type

/-- A clause is acceptable: it names a field of the schema, and is acceptable on it. -/
def Acceptable {ρ : Type} (schema : Schema ρ) (c : Clause) : Prop :=
  c.property ≠ "" ∧
    ∃ f, schema.field? c.property = some f ∧ c.AcceptableOn formats f.type

end Clause

theorem FieldType.mem_ordered_iff {type : FieldType} :
    type ∈ ordered ↔ type.isOrdered = true := by
  rw [isOrdered_iff]
  simp [ordered]

section Faultless

variable {ρ : Type} {formats : List String} {f : Field ρ} {c : Clause}

theorem Operand.denotes_of_coerce {type : FieldType} {s : String} {v : Option Value}
    (hs : s ≠ "") (h : coerce formats type s = .ok v) : Denotes formats type s := by
  cases v with
  | none => exact absurd (eq_empty_of_coerce h) hs
  | some v => exact ⟨v, h⟩

theorem Operand.ne_empty_of_given {raw : Option String} {s : String}
    (h : given? raw = some s) : s ≠ "" := by
  have hs := (Option.filter_eq_some_iff.mp h).2
  simpa using hs

/-- An operand has no faults if it is not given or denotes a value. -/
theorem Field.operandFaults_eq_nil_iff {raw : Option String} :
    f.operandFaults formats raw = [] ↔
      ∀ s ∈ Operand.given? raw, Operand.Denotes formats f.type s := by
  unfold operandFaults
  cases hgiven : Operand.given? raw with
  | none => simp
  | some s =>
      have hs := Operand.ne_empty_of_given hgiven
      cases hread : Operand.coerce formats f.type s with
      | ok v =>
          have hdenotes := Operand.denotes_of_coerce hs hread
          simpa [hread] using hdenotes
      | error e => simp [Operand.Denotes, hread]

/-- Candidates have no faults if all that are given denote values. -/
theorem Field.candidateFaults_eq_nil_iff {raws : List String} :
    (raws.flatMap fun s => f.operandFaults formats (some s)) = [] ↔
      ∀ s ∈ Operand.givenAll raws, Operand.Denotes formats f.type s := by
  rw [List.flatMap_eq_nil_iff]
  constructor
  · intro h s hs
    obtain ⟨hmem, hne⟩ := List.mem_filter.mp hs
    exact operandFaults_eq_nil_iff.mp (h s hmem) s (by simpa [Operand.given?] using hne)
  · intro h s hs
    refine operandFaults_eq_nil_iff.mpr fun t ht => h t ?_
    obtain ⟨hst, hne⟩ := Option.filter_eq_some_iff.mp ht
    cases hst
    exact List.mem_filter.mpr ⟨hs, hne⟩

theorem Field.orderFaults_eq_nil_iff {operator : String} :
    f.orderFaults operator = [] ↔ f.type ∈ FieldType.ordered := by
  rw [FieldType.mem_ordered_iff, orderFaults]
  cases f.type.isOrdered <;> simp

namespace Clause

theorem isBounded_eq_true_iff : c.isBounded = true ↔ ¬ c.Unbounded := by
  unfold isBounded Unbounded
  cases Operand.given? c.minValue <;> cases Operand.given? c.maxValue <;> simp

/-- What the operator of a clause without bounds needs is there if it has no faults. -/
theorem operatorFaults_eq_nil_iff (hunbounded : c.Unbounded) :
    c.operatorFaults formats f = [] ↔ c.HasTest formats f.type := by
  constructor
  · intro h
    unfold operatorFaults at h
    split at h
    next hin =>
      obtain ⟨hall, hsome⟩ := List.append_eq_nil_iff.mp h
      refine .oneOf hunbounded hin (fun hnil => ?_) (Field.candidateFaults_eq_nil_iff.mp hall)
      rw [if_pos hnil] at hsome
      cases hsome
    next hin =>
      obtain ⟨horder, hvalue⟩ := List.append_eq_nil_iff.mp h
      have hvalue : ¬ (c.operator = .between ∨ Operand.given? c.value = none) := fun hnone => by
        rw [if_pos hnone] at hvalue
        cases hvalue
      rw [not_or] at hvalue
      have hordered : c.operator.needsOrder = true → f.type ∈ FieldType.ordered :=
        fun hneeds => by
          rw [if_pos hneeds] at horder
          exact Field.orderFaults_eq_nil_iff.mp horder
      cases hop : c.operator with
      | equals => exact .equals hunbounded hop hvalue.2
      | isIn => exact absurd hop hin
      | between => exact absurd hop hvalue.1
      | _ => exact .order hunbounded (by simp [hop]) hvalue.2 (hordered (by rw [hop]; rfl))
  · intro h
    cases h with
    | bounds bounded => exact absurd hunbounded bounded
    | equals _ operator value => simp [operatorFaults, operator, value, Operator.needsOrder]
    | order _ operator value ordered =>
        have horder : ∀ name, f.orderFaults name = [] := fun name =>
          Field.orderFaults_eq_nil_iff.mpr ordered
        unfold operatorFaults
        cases hop : c.operator with
        | equals | isIn | between => simp [hop] at operator
        | _ => simp [horder, value]
    | oneOf _ operator some all =>
        simp [operatorFaults, operator, some, Field.candidateFaults_eq_nil_iff.mpr all]

/-- A clause has no faults on a field exactly if it is acceptable there. -/
theorem faultsOn_eq_nil_iff : c.faultsOn formats f = [] ↔ c.AcceptableOn formats f.type := by
  have htest : (if c.isBounded then f.orderFaults "range bounds"
      else c.operatorFaults formats f) = [] ↔ c.HasTest formats f.type := by
    by_cases hunbounded : c.Unbounded
    · have hbounded : ¬ c.isBounded = true := fun h => isBounded_eq_true_iff.mp h hunbounded
      rw [if_neg hbounded]
      exact operatorFaults_eq_nil_iff hunbounded
    · rw [if_pos (isBounded_eq_true_iff.mpr hunbounded), Field.orderFaults_eq_nil_iff]
      refine ⟨fun ordered => .bounds hunbounded ordered, fun h => ?_⟩
      cases h with
      | bounds _ ordered => exact ordered
      | equals unbounded | order unbounded | oneOf unbounded =>
          exact absurd unbounded hunbounded
  unfold faultsOn
  rw [List.append_eq_nil_iff, List.append_eq_nil_iff, List.append_eq_nil_iff,
    Field.operandFaults_eq_nil_iff, Field.operandFaults_eq_nil_iff,
    Field.operandFaults_eq_nil_iff, htest]
  constructor
  · rintro ⟨⟨⟨value, lower⟩, upper⟩, test⟩
    exact ⟨value, lower, upper, test⟩
  · rintro ⟨value, lower, upper, test⟩
    exact ⟨⟨⟨value, lower⟩, upper⟩, test⟩

/-- A clause has no faults exactly if it is acceptable. -/
theorem faults_eq_nil_iff {schema : Schema ρ} :
    c.faults schema formats = [] ↔ c.Acceptable formats schema := by
  unfold faults Acceptable
  by_cases hname : c.property = ""
  · simp [hname]
  · rw [if_neg hname]
    cases schema.field? c.property with
    | none => simp
    | some f => simp [hname, faultsOn_eq_nil_iff]

end Clause

end Faultless

section Lists

variable {ρ : Type} (schema : Schema ρ) (formats : List String)

/-- A list of conditions compiles exactly if it is not empty and all its clauses are acceptable. -/
theorem Predicate.exists_compile_iff_forall_clauses (cs : List Condition) :
    (∃ p, compile schema formats cs = .ok p) ↔
      cs ≠ [] ∧ ∀ x ∈ Condition.clausesAll cs, x.2.Acceptable formats schema := by
  rw [← refusal?_eq_none_iff, refusal?_compile]
  cases cs with
  | nil => simp [Condition.compileAll, refusal?]
  | cons first rest =>
      rw [Condition.refusal?_compileAll, List.findSome?_eq_none_iff]
      constructor
      · intro h
        refine ⟨List.cons_ne_nil first rest, fun x hx => ?_⟩
        exact Clause.faults_eq_nil_iff.mp ((firstFault?_eq_none_iff schema formats).mp (h x hx))
      · rintro ⟨-, h⟩ x hx
        exact (firstFault?_eq_none_iff schema formats).mpr (Clause.faults_eq_nil_iff.mpr (h x hx))

/-- **Which lists compile.**  A list of conditions compiles exactly if it is not empty and
every clause in it, at whatever position, is acceptable. -/
theorem Predicate.exists_compile_iff_acceptable (cs : List Condition) :
    (∃ p, compile schema formats cs = .ok p) ↔
      cs ≠ [] ∧ ∀ position clause, Condition.clauseAt? cs position = some clause →
        clause.Acceptable formats schema := by
  rw [exists_compile_iff_forall_clauses]
  refine and_congr_right fun _ => ⟨fun h position clause hclause => ?_, fun h x hx => ?_⟩
  · exact h (position, clause) ((Condition.mem_clausesAll_iff position clause cs).mpr hclause)
  · exact h x.1 x.2 ((Condition.mem_clausesAll_iff x.1 x.2 cs).mp hx)

end Lists

end FieldRules
