import FieldRules.Proofs.Meaning
import FieldRules.Proofs.Positions

/-!
# The first fault is the one reported

A clause may have many faults.  They are listed in the order in which they are looked
for: the name of the field, the operand and the two bounds, the order that bounds need,
and at last what the operator needs.  A clause with a fault is refused for its first one,
and a list of conditions is refused for the first fault of the first clause that has one,
in the order of positions.

**Results.**
* `Clause.refusal?_compile`: a clause is refused for its first fault.
* `Condition.refusal?_compileAll`: a list is refused for the first fault in it.
* `Predicate.compile_eq_error_iff_first`: where it stands, and that nothing before it has
  one.
-/

namespace FieldRules

/-- The error of an outcome that is one. -/
def refusal? {ε α : Type} : Except ε α → Option ε
  | .ok _ => none
  | .error e => some e

section Refusal

variable {ε α β : Type}

@[simp] theorem refusal?_ok (a : α) : refusal? (.ok a : Except ε α) = none := rfl

@[simp] theorem refusal?_error (e : ε) : refusal? (.error e : Except ε α) = some e := rfl

theorem refusal?_eq_some_iff {x : Except ε α} {e : ε} : refusal? x = some e ↔ x = .error e := by
  cases x <;> simp

theorem refusal?_eq_none_iff {x : Except ε α} : refusal? x = none ↔ ∃ a, x = .ok a := by
  cases x <;> simp

/-- A sequence is refused by its first part that is. -/
theorem refusal?_bind {x : Except ε α} {f : α → Except ε β} {r : Option ε}
    (hf : ∀ a, x = .ok a → refusal? (f a) = r) :
    refusal? (x >>= f) = (refusal? x).or r := by
  cases x with
  | error e => rfl
  | ok a =>
      rw [refusal?_ok, Option.none_or]
      exact hf a rfl

/-- An error at a position is the fault with that position. -/
theorem refusal?_at (position : Position) (x : Except Fault α) :
    refusal? (Fault.at position x) = (refusal? x).map (CompileError.fault position) := by
  cases x <;> rfl

end Refusal

theorem begins_append {s t u : String} (h : ∃ w, t = s ++ w) : ∃ w, t ++ u = s ++ w := by
  obtain ⟨w, rfl⟩ := h
  exact ⟨w ++ u, String.append_assoc⟩

/-- The wording of a fault begins with the text of its position. -/
theorem CompileError.message_fault (position : Position) (f : Fault) :
    ∃ wording, (CompileError.fault position f).message =
      "condition " ++ position.text ++ wording := by
  have hbegin : ∀ t : String, ∃ w, "condition " ++ position.text ++ t =
      "condition " ++ position.text ++ w := fun t => ⟨t, rfl⟩
  cases f with
  | emptyPropertyName => exact hbegin _
  | unknownField =>
      iterate 4 refine begins_append ?_
      exact hbegin _
  | coercion =>
      iterate 6 refine begins_append ?_
      exact hbegin _
  | unsupportedOperator =>
      iterate 6 refine begins_append ?_
      exact hbegin _
  | missingOperand =>
      iterate 4 refine begins_append ?_
      exact hbegin _
  | emptyCandidates =>
      iterate 2 refine begins_append ?_
      exact hbegin _

/-- Whether a clause has bounds, which count before its operator. -/
def Clause.isBounded (c : Clause) : Bool :=
  (Operand.given? c.minValue).isSome || (Operand.given? c.maxValue).isSome

section Listing

variable {ρ : Type} (schema : Schema ρ) (formats : List String)

/-- The fault of an operand that does not denote a value of a field. -/
def Field.operandFaults (f : Field ρ) (raw : Option String) : List Fault :=
  match Operand.given? raw with
  | none => []
  | some s =>
      match Operand.coerce formats f.type s with
      | .ok _ => []
      | .error e => [.coercion f.name s f.type.name e]

/-- The fault of asking for an order on a field that has none. -/
def Field.orderFaults (f : Field ρ) (operator : String) : List Fault :=
  if f.type.isOrdered then [] else [.unsupportedOperator f.name operator f.type.name]

namespace Clause

/-- The faults of a clause without bounds that lie with its operator.  `Between` never has
what it needs. -/
def operatorFaults (c : Clause) (f : Field ρ) : List Fault :=
  match c.operator with
  | .isIn =>
      (c.values.flatMap fun s => f.operandFaults formats (some s)) ++
        if Operand.givenAll c.values = [] then [.emptyCandidates f.name] else []
  | operator =>
      (if operator.needsOrder then f.orderFaults operator.name else []) ++
        if operator = .between ∨ Operand.given? c.value = none then
          [.missingOperand f.name operator]
        else []

/-- The faults of a clause on a field. -/
def faultsOn (c : Clause) (f : Field ρ) : List Fault :=
  f.operandFaults formats c.value ++ f.operandFaults formats c.minValue ++
    f.operandFaults formats c.maxValue ++
    if c.isBounded then f.orderFaults "range bounds" else c.operatorFaults formats f

/-- The faults of a clause, in the order in which they are looked for. -/
def faults (c : Clause) : List Fault :=
  if c.property = "" then [.emptyPropertyName]
  else
    match schema.field? c.property with
    | none => [.unknownField c.property schema.name]
    | some f => c.faultsOn formats f

end Clause

end Listing

/-- A name that is not resolved is the name of no field. -/
theorem Schema.field?_eq_none_of_resolve? {ρ : Type} {s : Schema ρ} {name : String}
    (h : s.resolve? name = none) : s.field? name = none := by
  rw [Option.eq_none_iff_forall_ne_some]
  intro f hf
  obtain ⟨hmem, rfl⟩ := field?_eq_some_iff.mp hf
  have hnamed : f.name ∈ s.fieldNames := List.mem_map_of_mem hmem
  rw [← isSome_resolve?_iff, h] at hnamed
  cases hnamed

namespace Clause

section Checks

variable {ρ : Type} {formats : List String} {f : Field ρ} {c : Clause} (index : Nat)

/-- An operand on a field either has a value, if it is given, or is at fault. -/
theorem coerce_cases (formats : List String) (f : Field ρ) (raw : Option String) :
    (∃ v, coerce formats ⟨index, f.name, f.type⟩ raw = .ok v ∧
        v.isSome = (Operand.given? raw).isSome ∧ f.operandFaults formats raw = []) ∨
      ∃ x, coerce formats ⟨index, f.name, f.type⟩ raw = .error x ∧
        f.operandFaults formats raw = [x] := by
  cases raw with
  | none => exact .inl ⟨none, rfl, rfl, rfl⟩
  | some s =>
      by_cases hs : s = ""
      · subst hs
        exact .inl ⟨none, rfl, rfl, rfl⟩
      · have hgiven : Operand.given? (some s) = some s := by simp [Operand.given?, hs]
        cases hread : Operand.coerce formats f.type s with
        | error e =>
            refine .inr ⟨.coercion f.name s f.type.name e, by simp [coerce, hread], ?_⟩
            simp [Field.operandFaults, hgiven, hread]
        | ok v =>
            refine .inl ⟨v, by simp [coerce, hread], ?_, ?_⟩
            · cases v with
              | none => exact absurd (Operand.eq_empty_of_coerce hread) hs
              | some v => rw [hgiven]; rfl
            · simp [Field.operandFaults, hgiven, hread]

/-- An operand is refused for its first fault. -/
theorem refusal?_coerce (raw : Option String) :
    refusal? (coerce formats ⟨index, f.name, f.type⟩ raw) =
      (f.operandFaults formats raw).head? := by
  rcases coerce_cases index formats f raw with ⟨v, hv, -, hnone⟩ | ⟨x, hx, hone⟩
  · rw [hv, hnone]; rfl
  · rw [hx, hone]; rfl

theorem isSome_of_coerce {raw : Option String} {v : Option Value}
    (h : coerce formats ⟨index, f.name, f.type⟩ raw = .ok v) :
    v.isSome = (Operand.given? raw).isSome := by
  rcases coerce_cases index formats f raw with ⟨w, hw, hgiven, -⟩ | ⟨x, hx, -⟩
  · rw [hw] at h
    cases h
    exact hgiven
  · rw [hx] at h
    cases h

theorem refusal?_requireOrder (operator : String) :
    refusal? (requireOrder ⟨index, f.name, f.type⟩ operator) =
      (f.orderFaults operator).head? := by
  unfold requireOrder Field.orderFaults
  split <;> rfl

theorem refusal?_orderCheck :
    refusal? (orderCheck c ⟨index, f.name, f.type⟩) =
      (if c.operator.needsOrder then f.orderFaults c.operator.name else []).head? := by
  unfold orderCheck
  split
  · exact refusal?_requireOrder index c.operator.name
  · rfl

/-- Candidates are refused for the first fault among them. -/
theorem refusal?_candidates (raws : List String) :
    refusal? (candidates formats ⟨index, f.name, f.type⟩ raws) =
      (raws.flatMap fun s => f.operandFaults formats (some s)).head? := by
  induction raws with
  | nil => rfl
  | cons raw raws ih =>
      rw [candidates, List.flatMap_cons, List.head?_append, ← refusal?_coerce index]
      refine refusal?_bind fun v _ => ?_
      have hlast : refusal? (candidates formats ⟨index, f.name, f.type⟩ raws >>= fun vs =>
          pure (v.toList ++ vs)) =
            (refusal? (candidates formats ⟨index, f.name, f.type⟩ raws)).or none :=
        refusal?_bind fun _ _ => rfl
      rw [hlast, Option.or_none, ih]

theorem refusal?_oneOf {vs : List Value} {raws : List String}
    (h : candidates formats ⟨index, f.name, f.type⟩ raws = .ok vs) :
    refusal? (oneOf ⟨index, f.name, f.type⟩ vs) =
      (if Operand.givenAll raws = [] then [Fault.emptyCandidates f.name] else []).head? := by
  have hlength := (candidates_eq_ok h).length_eq
  cases vs with
  | nil =>
      rw [if_pos (List.length_eq_zero_iff.mp hlength)]
      rfl
  | cons v vs =>
      have hgiven : Operand.givenAll raws ≠ [] := by
        intro hnil
        rw [hnil] at hlength
        cases hlength
      rw [if_neg hgiven]
      rfl

theorem refusal?_single {operator : Operator} {comparison : Comparison} {raw : Option String}
    {v : Option Value} (h : v.isSome = (Operand.given? raw).isSome) :
    refusal? (single ⟨index, f.name, f.type⟩ operator comparison v) =
      (if Operand.given? raw = none then [Fault.missingOperand f.name operator] else []).head? := by
  cases hgiven : Operand.given? raw with
  | none =>
      rw [hgiven, Option.isSome_none, Option.isSome_eq_false_iff, Option.isNone_iff_eq_none] at h
      rw [h]
      rfl
  | some s =>
      rw [hgiven, Option.isSome_some, Option.isSome_iff_exists] at h
      obtain ⟨w, rfl⟩ := h
      rfl

/-- Without bounds, a clause is refused for the first fault of its operator. -/
theorem refusal?_compileOperator {value : Option Value}
    (hvalue : value.isSome = (Operand.given? c.value).isSome) :
    refusal? (compileOperator formats c ⟨index, f.name, f.type⟩ value) =
      (c.operatorFaults formats f).head? := by
  cases hop : c.operator.comparison? with
  | some comparison =>
      have hbetween : c.operator ≠ .between := by
        rintro h
        rw [h] at hop
        cases hop
      have hfaults : c.operatorFaults formats f =
          (if c.operator.needsOrder then f.orderFaults c.operator.name else []) ++
            if Operand.given? c.value = none then [.missingOperand f.name c.operator] else [] := by
        unfold operatorFaults
        split
        next hin =>
          rw [hin] at hop
          cases hop
        next => simp [hbetween]
      rw [compileOperator_of_comparison hop, hfaults, List.head?_append,
        ← refusal?_orderCheck index]
      exact refusal?_bind fun _ _ => refusal?_single index hvalue
  | none =>
      have hin : c.operator = .isIn ∨ c.operator = .between := by
        revert hop
        cases c.operator <;> simp [Operator.comparison?]
      rcases hin with hin | hbetween
      · rw [compileOperator_of_isIn hin, operatorFaults, hin, List.head?_append,
          ← refusal?_candidates index]
        exact refusal?_bind fun _ hvs => refusal?_oneOf index hvs
      · have hfaults : c.operatorFaults formats f =
            f.orderFaults Operator.between.name ++ [.missingOperand f.name .between] := by
          simp [operatorFaults, hbetween, Operator.needsOrder]
        rw [compileOperator_of_between hbetween, hfaults, List.head?_append,
          ← refusal?_requireOrder index]
        exact refusal?_bind fun _ _ => rfl

/-- A clause on a field is refused for its first fault.  All three operands are read
before it matters which of them are given. -/
theorem refusal?_compileOn :
    refusal? (compileOn formats c ⟨index, f.name, f.type⟩) =
      (c.faultsOn formats f).head? := by
  rw [compileOn, faultsOn, List.append_assoc, List.append_assoc, List.head?_append,
    List.head?_append, List.head?_append, ← refusal?_coerce index, ← refusal?_coerce index,
    ← refusal?_coerce index]
  refine refusal?_bind fun value hvalue => ?_
  refine refusal?_bind fun lower hlower => ?_
  refine refusal?_bind fun upper hupper => ?_
  have hbounded : c.isBounded = (lower.isSome || upper.isSome) := by
    rw [isBounded, isSome_of_coerce index hlower, isSome_of_coerce index hupper]
  have hordered : ∀ e : Expr,
      refusal? (requireOrder ⟨index, f.name, f.type⟩ "range bounds" >>= fun _ => pure e) =
        (f.orderFaults "range bounds").head? := by
    intro e
    rw [← refusal?_requireOrder index]
    exact (refusal?_bind (r := none) fun _ _ => rfl).trans (Option.or_none ..)
  cases lower with
  | some lo =>
      rw [hbounded, Option.isSome_some, Bool.true_or, if_pos rfl]
      cases upper with
      | none => exact hordered _
      | some hi => exact hordered _
  | none =>
      cases upper with
      | some hi =>
          rw [hbounded, Option.isSome_some, Bool.or_true, if_pos rfl]
          exact hordered _
      | none =>
          rw [hbounded]
          exact refusal?_compileOperator index (isSome_of_coerce index hvalue)

end Checks

variable {ρ : Type} (schema : Schema ρ) (formats : List String)

/-- A clause is refused for its first fault. -/
theorem refusal?_compile (c : Clause) :
    refusal? (c.compile schema formats) = (c.faults schema formats).head? := by
  unfold compile resolve faults
  by_cases hname : c.property = ""
  · rw [if_pos hname, if_pos hname]
    rfl
  · rw [if_neg hname, if_neg hname]
    cases hresolve : schema.resolve? c.property with
    | none =>
        rw [Schema.field?_eq_none_of_resolve? hresolve]
        rfl
    | some t =>
        obtain ⟨f, hfield, -, htname, httype⟩ := Schema.field?_of_resolve? hresolve
        have ht : t = ⟨t.index, f.name, f.type⟩ := by rw [← htname, ← httype]
        rw [hfield, ht]
        exact refusal?_compileOn t.index

end Clause

namespace Condition

variable {ρ : Type} (schema : Schema ρ) (formats : List String)

/-- The error that a clause at a position is refused with, if it has a fault. -/
def firstFault? (x : Position × Clause) : Option CompileError :=
  ((x.2.faults schema formats).head?).map (CompileError.fault x.1)

/-- A clause at a position is refused for its first fault. -/
theorem refusal?_compileAt (position : Position) (c : Clause) :
    refusal? (c.compileAt schema formats position).outcome =
      firstFault? schema formats (position, c) := by
  rw [Clause.outcome_compileAt, refusal?_at, Clause.refusal?_compile]
  rfl

mutual

theorem refusal?_compile (position : Position) : ∀ c : Condition,
    refusal? (compile schema formats position c).outcome =
      (clauses position c).findSome? (firstFault? schema formats)
  | ⟨clause, nested⟩ => by
      have hnested := refusal?_bind (x := (clause.compileAt schema formats position).outcome)
        fun own _ => refusal?_compileNested position 0 own nested
      rw [compile, Noted.outcome_bind, hnested, refusal?_compileAt, clauses, List.findSome?_cons]
      cases firstFault? schema formats (position, clause) <;> rfl

theorem refusal?_compileNested (position : Position) (place : Nat) (e : Expr) :
    ∀ cs : List Condition,
      refusal? (compileNested schema formats position place e cs).outcome =
        (clausesNested position place cs).findSome? (firstFault? schema formats)
  | [] => rfl
  | c :: cs => by
      rw [compileNested, Noted.outcome_bind, clausesNested, List.findSome?_append,
        ← refusal?_compile (position.child place) c]
      exact refusal?_bind fun next _ =>
        refusal?_compileNested position (place + 1) (.and e next) cs

end

/-- The conditions after the first are refused for the first fault among their clauses. -/
theorem refusal?_compileRest (index : Nat) (e : Expr) (cs : List Condition) :
    refusal? (compileRest schema formats index e cs).outcome =
      (clausesFrom index cs).findSome? (firstFault? schema formats) := by
  induction cs generalizing index e with
  | nil => rfl
  | cons c cs ih =>
      rw [compileRest, Noted.outcome_bind, clausesFrom, List.findSome?_append,
        ← refusal?_compile schema formats ⟨index, []⟩ c]
      exact refusal?_bind fun next _ => ih (index + 1) _

/-- A list of conditions is refused for the first fault in it. -/
theorem refusal?_compileAll (first : Condition) (rest : List Condition) :
    refusal? (compileAll schema formats (first :: rest)).outcome =
      (clausesAll (first :: rest)).findSome? (firstFault? schema formats) := by
  rw [compileAll, Noted.outcome_bind, clausesAll, clausesFrom, List.findSome?_append,
    ← refusal?_compile schema formats ⟨0, []⟩ first]
  exact refusal?_bind fun e _ => refusal?_compileRest schema formats 1 e rest

end Condition

/-- In a list that is in order, the first value is that of the element before which there
is none. -/
theorem findSome?_eq_some_iff_of_pairwise {α β : Type} {R : α → α → Prop} {f : α → Option β}
    {l : List α} {b : β} (hl : l.Pairwise R) (hR : ∀ x y, R x y → ¬ R y x) :
    l.findSome? f = some b ↔
      ∃ x ∈ l, f x = some b ∧ ∀ y ∈ l, R y x → f y = none := by
  constructor
  · intro h
    obtain ⟨before, x, after, rfl, hx, hbefore⟩ := List.findSome?_eq_some_iff.mp h
    refine ⟨x, by simp, hx, fun y hy hyx => ?_⟩
    rcases List.mem_append.mp hy with hy | hy
    · exact hbefore y hy
    · rw [List.pairwise_append, List.pairwise_cons] at hl
      rcases List.mem_cons.mp hy with rfl | hy
      · exact absurd hyx (hR y y hyx)
      · exact absurd hyx (hR x y (hl.2.1.1 y hy))
  · rintro ⟨x, hx, hfx, hnone⟩
    obtain ⟨before, after, rfl⟩ := List.append_of_mem hx
    refine List.findSome?_eq_some_iff.mpr ⟨before, x, after, rfl, hfx, fun y hy => ?_⟩
    rw [List.pairwise_append] at hl
    exact hnone y (by simp [hy]) (hl.2.2 y hy x List.mem_cons_self)

namespace Predicate

variable {ρ : Type} (schema : Schema ρ) (formats : List String)

theorem refusal?_compile (cs : List Condition) :
    refusal? (compile schema formats cs) =
      refusal? (Condition.compileAll schema formats cs).outcome := by
  rw [compile_eq]
  cases (Condition.compileAll schema formats cs).outcome <;> rfl

theorem firstFault?_eq_none_iff {p : Position} {c : Clause} :
    Condition.firstFault? schema formats (p, c) = none ↔ c.faults schema formats = [] := by
  simp [Condition.firstFault?]

/-- **The error that a list is refused with.**  A list of conditions that is not empty is
refused with an error exactly if the error is the first of the faults of some clause, at
the position of the clause, and no clause before it has faults.  The wording of the error
begins with the text of the position, and no two positions have one text. -/
theorem compile_eq_error_iff_first (first : Condition) (rest : List Condition) :
    (∀ e, compile schema formats (first :: rest) = .error e ↔
      ∃ position clause fault,
        Condition.clauseAt? (first :: rest) position = some clause ∧
        (clause.faults schema formats).head? = some fault ∧
        (∀ p c, Condition.clauseAt? (first :: rest) p = some c → p.Before position →
          c.faults schema formats = []) ∧
        e = .fault position fault ∧
        ∃ wording, e.message = "condition " ++ position.text ++ wording) ∧
    ∀ p q : Position, p.text = q.text → p = q := by
  refine ⟨fun e => ?_, fun p q h => Position.text_injective h⟩
  rw [← refusal?_eq_some_iff, refusal?_compile, Condition.refusal?_compileAll,
    findSome?_eq_some_iff_of_pairwise (Condition.pairwise_clausesAll _) fun _ _ h => h.asymm]
  constructor
  · rintro ⟨⟨position, clause⟩, hmem, hfirst, hbefore⟩
    obtain ⟨fault, hfault, rfl⟩ := Option.map_eq_some_iff.mp hfirst
    refine ⟨position, clause, fault, ?_, hfault, fun p c hc hp => ?_, rfl,
      CompileError.message_fault position fault⟩
    · exact (Condition.mem_clausesAll_iff position clause _).mp hmem
    · have hc := (Condition.mem_clausesAll_iff p c _).mpr hc
      exact (firstFault?_eq_none_iff schema formats).mp (hbefore (p, c) hc hp)
  · rintro ⟨position, clause, fault, hclause, hfault, hbefore, rfl, -⟩
    refine ⟨(position, clause), (Condition.mem_clausesAll_iff position clause _).mpr hclause,
      ?_, fun ⟨p, c⟩ hc hp => ?_⟩
    · rw [Condition.firstFault?, hfault, Option.map_some]
    · have hc := (Condition.mem_clausesAll_iff p c _).mp hc
      exact (firstFault?_eq_none_iff schema formats).mpr (hbefore p c hc hp)

end Predicate

namespace Gauge

/-- The order that a nested condition needs is asked for before its operand, and reported
before the empty name that follows. -/
example (formats : List String) :
    Predicate.compile schema formats
        [((Condition.on "level" .equals).withValue "1").withNested
            (Condition.on "state" .greaterThan), Condition.on "" .equals] =
      .error (.fault ⟨0, [0]⟩ (.unsupportedOperator "state" "GreaterThan" "State")) := rfl

end Gauge

end FieldRules
