import FieldRules.Proofs.Operands
import FieldRules.Proofs.Positions

/-!
# What compilation does not look at

Of a clause, compilation looks at the name of its field and at the operands that are given;
at the operator only if there are no bounds, and at the candidates only if the operator is
`In`.  The numbers, the nominal data types, and the connectors of the first condition and of
nested ones are never looked at.  Two lists of conditions that agree in the rest, position by
position, compile to one expression or are refused with one error.

This is a statement about two runs.  It is shown along the compilation, so that it does not
matter whether both succeed or where both fail.

**Results.**
* `Clause.compile_congr`: clauses that are alike have one test or one fault.
* `Condition.alikeAll_cons_iff`: lists that are alike are so part by part.
* `Predicate.compile_eq_of_alike`: lists that are alike compile to one outcome.
-/

namespace FieldRules

theorem bind_congr_of_ok {ε α β : Type} {x : Except ε α} {f g : α → Except ε β}
    (h : ∀ a, x = .ok a → f a = g a) : x >>= f = x >>= g := by
  cases x with
  | error e => rfl
  | ok a => exact h a rfl

/-- Two clauses agree in what compilation looks at. -/
structure Clause.Alike (c d : Clause) : Prop where
  property : c.property = d.property
  value : Operand.given? c.value = Operand.given? d.value
  lower : Operand.given? c.minValue = Operand.given? d.minValue
  upper : Operand.given? c.maxValue = Operand.given? d.maxValue
  operator : Operand.given? c.minValue = none → Operand.given? c.maxValue = none →
    c.operator = d.operator
  candidates : Operand.given? c.minValue = none → Operand.given? c.maxValue = none →
    c.operator = .isIn → Operand.givenAll c.values = Operand.givenAll d.values

/-- Two lists of conditions have the same shape, and the clauses at every position are
alike. -/
def Condition.AlikeAll (as bs : List Condition) : Prop :=
  ∀ position, Option.Rel Clause.Alike (clauseAt? as position) (clauseAt? bs position)

namespace Clause

section Congruence

variable {ρ : Type} (schema : Schema ρ) (formats : List String) (t : Target) {c d : Clause}

theorem coerce_given (raw : Option String) :
    coerce formats t (Operand.given? raw) = coerce formats t raw := by
  cases raw with
  | none => rfl
  | some s =>
      by_cases hs : s = ""
      · subst hs
        rfl
      · have hgiven : Operand.given? (some s) = some s := by simp [Operand.given?, hs]
        rw [hgiven]

theorem coerce_congr {raw raw' : Option String} (h : Operand.given? raw = Operand.given? raw') :
    coerce formats t raw = coerce formats t raw' := by
  rw [← coerce_given, h, coerce_given]

theorem candidates_givenAll (raws : List String) :
    candidates formats t (Operand.givenAll raws) = candidates formats t raws := by
  induction raws with
  | nil => rfl
  | cons raw raws ih =>
      by_cases hs : raw = ""
      · subst hs
        have hskip : candidates formats t ("" :: raws) = candidates formats t raws := by
          rw [candidates]
          cases h : candidates formats t raws <;> rfl
        rw [Operand.givenAll, List.filter_cons_of_neg (by simp), hskip]
        exact ih
      · rw [Operand.givenAll, List.filter_cons_of_pos (by simpa using hs), candidates, candidates]
        exact bind_congr fun v => congrArg (· >>= _) ih

/-- Only `In` looks at the candidates. -/
theorem compileOperator_congr (value : Option Value) (hoperator : c.operator = d.operator)
    (hcandidates : c.operator = .isIn → Operand.givenAll c.values = Operand.givenAll d.values) :
    compileOperator formats c t value = compileOperator formats d t value := by
  by_cases hin : c.operator = .isIn
  · have hvalues : candidates formats t c.values = candidates formats t d.values := by
      rw [← candidates_givenAll, hcandidates hin, candidates_givenAll]
    rw [compileOperator_of_isIn hin, compileOperator_of_isIn (hoperator ▸ hin), hvalues]
  · unfold compileOperator
    rw [← hoperator]
    cases h : c.operator with
    | isIn => exact absurd h hin
    | _ => rfl

/-- On one field, clauses that are alike have one test or one fault. -/
theorem compileOn_congr (h : c.Alike d) : compileOn formats c t = compileOn formats d t := by
  unfold compileOn
  rw [coerce_congr formats t h.value, coerce_congr formats t h.lower,
    coerce_congr formats t h.upper]
  refine bind_congr fun value => bind_congr_of_ok fun lower hlower =>
    bind_congr_of_ok fun upper hupper => ?_
  cases lower with
  | some lo => cases upper <;> rfl
  | none =>
      cases upper with
      | some hi => rfl
      | none =>
          have hmin : Operand.given? c.minValue = none := by
            rw [h.lower, not_given_of_coerce hlower]
          have hmax : Operand.given? c.maxValue = none := by
            rw [h.upper, not_given_of_coerce hupper]
          exact compileOperator_congr formats t value (h.operator hmin hmax)
            (h.candidates hmin hmax)

/-- Clauses that are alike have one test or one fault. -/
theorem compile_congr (h : c.Alike d) :
    c.compile schema formats = d.compile schema formats := by
  have hresolve : c.resolve schema = d.resolve schema := by
    unfold resolve
    rw [h.property]
  unfold compile
  rw [hresolve]
  exact bind_congr fun t => compileOn_congr formats t h

end Congruence

end Clause

namespace Condition

section Shape

variable {a b : Condition} {as bs : List Condition}

theorem alikeAll_nil : AlikeAll [] [] := fun _ => .none

theorem not_alikeAll_nil_cons : ¬ AlikeAll [] (b :: bs) := fun h => nomatch h ⟨0, []⟩

theorem not_alikeAll_cons_nil : ¬ AlikeAll (a :: as) [] := fun h => nomatch h ⟨0, []⟩

/-- Lists are alike if their first clauses are, what is nested there, and the rest. -/
theorem alikeAll_cons_iff :
    AlikeAll (a :: as) (b :: bs) ↔
      a.clause.Alike b.clause ∧ AlikeAll a.nested b.nested ∧ AlikeAll as bs := by
  constructor
  · intro h
    refine ⟨?_, fun p => h ⟨0, p.index :: p.path⟩, fun p => h ⟨p.index + 1, p.path⟩⟩
    cases h ⟨0, []⟩ with
    | some hclause => exact hclause
  · rintro ⟨hclause, hnested, hrest⟩ ⟨index, path⟩
    cases index with
    | succ index => exact hrest ⟨index, path⟩
    | zero =>
        cases path with
        | nil => exact .some hclause
        | cons j js => exact hnested ⟨j, js⟩

end Shape

section Congruence

variable {ρ : Type} (schema : Schema ρ) (formats : List String)

mutual

/-- Conditions that are alike compile to the same. -/
theorem compile_congr (position : Position) : ∀ a b : Condition,
    a.clause.Alike b.clause → AlikeAll a.nested b.nested →
      (compile schema formats position a).outcome = (compile schema formats position b).outcome
  | ⟨c, cs⟩, ⟨d, ds⟩, hclause, hnested => by
      rw [compile, compile, Noted.outcome_bind, Noted.outcome_bind, Clause.outcome_compileAt,
        Clause.outcome_compileAt, Clause.compile_congr schema formats hclause]
      exact bind_congr fun own => compileNested_congr position 0 own cs ds hnested

/-- Nested conditions that are alike compile to the same, whatever their connectors. -/
theorem compileNested_congr (position : Position) (place : Nat) (e : Expr) :
    ∀ as bs : List Condition, AlikeAll as bs →
      (compileNested schema formats position place e as).outcome =
        (compileNested schema formats position place e bs).outcome
  | [], [], _ => rfl
  | [], _ :: _, h => absurd h not_alikeAll_nil_cons
  | _ :: _, [], h => absurd h not_alikeAll_cons_nil
  | a :: as, b :: bs, h => by
      obtain ⟨hclause, hnested, hrest⟩ := alikeAll_cons_iff.mp h
      rw [compileNested, compileNested, Noted.outcome_bind, Noted.outcome_bind,
        compile_congr (position.child place) a b hclause hnested]
      exact bind_congr fun next =>
        compileNested_congr position (place + 1) (.and e next) as bs hrest

end

/-- Conditions after the first compile to the same if they are alike and joined alike. -/
theorem compileRest_congr (index : Nat) (e : Expr) {as bs : List Condition}
    (h : AlikeAll as bs)
    (hjoined : as.map (fun c => c.clause.connector) = bs.map fun c => c.clause.connector) :
    (compileRest schema formats index e as).outcome =
      (compileRest schema formats index e bs).outcome := by
  induction as generalizing index e bs with
  | nil =>
      cases bs with
      | nil => rfl
      | cons b bs => exact absurd h not_alikeAll_nil_cons
  | cons a as ih =>
      cases bs with
      | nil => exact absurd h not_alikeAll_cons_nil
      | cons b bs =>
          obtain ⟨hclause, hnested, hrest⟩ := alikeAll_cons_iff.mp h
          obtain ⟨hconnector, hjoined⟩ := List.cons.inj hjoined
          replace hconnector : a.clause.connector = b.clause.connector := hconnector
          rw [compileRest, compileRest, Noted.outcome_bind, Noted.outcome_bind,
            compile_congr schema formats ⟨index, []⟩ a b hclause hnested, hconnector]
          exact bind_congr fun next => ih (index + 1) _ hrest hjoined

/-- Lists compile to the same if they are alike and joined alike behind their first
conditions. -/
theorem compileAll_congr {as bs : List Condition} (h : AlikeAll as bs)
    (hjoined : as.tail.map (fun c => c.clause.connector) =
      bs.tail.map fun c => c.clause.connector) :
    (compileAll schema formats as).outcome = (compileAll schema formats bs).outcome := by
  cases as with
  | nil =>
      cases bs with
      | nil => rfl
      | cons b bs => exact absurd h not_alikeAll_nil_cons
  | cons a as =>
      cases bs with
      | nil => exact absurd h not_alikeAll_cons_nil
      | cons b bs =>
          obtain ⟨hclause, hnested, hrest⟩ := alikeAll_cons_iff.mp h
          rw [compileAll, compileAll, Noted.outcome_bind, Noted.outcome_bind,
            compile_congr schema formats ⟨0, []⟩ a b hclause hnested]
          exact bind_congr fun first =>
            compileRest_congr schema formats 1 first hrest hjoined

end Congruence

end Condition

/-- **What does not matter.**  Lists of conditions of one shape whose clauses are alike at
every position, and that are joined by the same connectors from the second condition on,
compile to the same predicate or are refused with the same error. -/
theorem Predicate.compile_eq_of_alike {ρ : Type} (schema : Schema ρ) (formats : List String)
    {as bs : List Condition} (halike : Condition.AlikeAll as bs)
    (hjoined : as.tail.map (fun c => c.clause.connector) =
      bs.tail.map fun c => c.clause.connector) :
    compile schema formats as = compile schema formats bs := by
  rw [compile_eq, compile_eq, Condition.compileAll_congr schema formats halike hjoined]

namespace Gauge

/-- A level between bounds, with an operator, candidates and a data type that do not
matter. -/
def levelRewritten : Condition :=
  ((((Condition.on "level" .isIn).withValues ["x"]).withMin "-5").withMax "+07").withDataType
    "text"

/-- The conditions on a gauge written otherwise: with numbers, with other connectors where
none is looked at, and with an empty operand for a missing one. -/
def rulesRewritten : List Condition :=
  [((((Condition.on "state" .isIn).withValues [" Busy ", "", "", "Idle"]).withId 7).joinedBy
        .and).withNested levelRewritten,
    (((Condition.on "load" .greaterThan).withValue "NaN").withValues ["1"]).withMin "",
    (((Condition.on "level" .lessThan).withValue "3").withParent 1).joinedBy .and]

/-- Both lists of conditions compile to one predicate. -/
theorem compile_rulesRewritten :
    Condition.AlikeAll rules rulesRewritten ∧
      rules.tail.map (fun c => c.clause.connector) =
        rulesRewritten.tail.map (fun c => c.clause.connector) ∧
      Predicate.compile schema [] rulesRewritten = .ok ⟨schema, test⟩ := by
  have hlevel :
      Condition.AlikeAll [(Condition.between "level" "-5" "+07").joinedBy .or] [levelRewritten] :=
    Condition.alikeAll_cons_iff.mpr
      ⟨⟨rfl, rfl, rfl, rfl, by decide, by decide⟩, Condition.alikeAll_nil, Condition.alikeAll_nil⟩
  have hload : Condition.AlikeAll rules.tail rulesRewritten.tail :=
    Condition.alikeAll_cons_iff.mpr
      ⟨⟨rfl, rfl, rfl, rfl, by decide, by decide⟩, Condition.alikeAll_nil,
        Condition.alikeAll_cons_iff.mpr
          ⟨⟨rfl, rfl, rfl, rfl, by decide, by decide⟩, Condition.alikeAll_nil,
            Condition.alikeAll_nil⟩⟩
  have halike : Condition.AlikeAll rules rulesRewritten :=
    Condition.alikeAll_cons_iff.mpr
      ⟨⟨rfl, rfl, rfl, rfl, by decide, by decide⟩, hlevel, hload⟩
  refine ⟨halike, rfl, ?_⟩
  rw [← Predicate.compile_eq_of_alike schema [] halike rfl]
  exact compile_rules []

end Gauge

end FieldRules
