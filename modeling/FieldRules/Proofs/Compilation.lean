import FieldRules.Predicate

/-!
# What conditions are compiled to

A clause is compiled to one of five kinds of tests; the operands and the field of each
are recorded in `Clause.Becomes`.  The tests of the clauses are joined in the order
and by the connectors in which any other view of the clauses is folded, so that a view
that goes through both connectives can be read off the conditions.

**Results.**
* `Clause.compile_becomes`: a clause becomes a test of one of these kinds, on the field
  that its name is resolved to.
* `Condition.fold_eq_total`: a fold of a condition is a total over all clauses in it.
* `Condition.compileAll_fold`: a view of expressions that goes through `AND` and `OR`
  is a fold over the conditions.
-/

namespace FieldRules

/-- Two steps succeed together only if each of them does. -/
theorem ok_of_bind {ε α β : Type} {x : Except ε α} {f : α → Except ε β} {b : β}
    (h : x >>= f = .ok b) : ∃ a, x = .ok a ∧ f a = .ok b := by
  cases x with
  | error e => cases h
  | ok a => exact ⟨a, rfl, h⟩

theorem Fault.at_eq_ok {α : Type} {position : Position} {x : Except Fault α} {a : α} :
    Fault.at position x = .ok a ↔ x = .ok a := by
  cases x <;> simp [Fault.at]

/-- How an operator compares a field with a single operand, if it does. -/
def Operator.comparison? : Operator → Option Comparison
  | .equals => some .equal
  | .greaterThan => some .greater
  | .lessThan => some .less
  | .greaterThanOrEqualTo => some .greaterOrEqual
  | .lessThanOrEqualTo => some .lessOrEqual
  | .isIn | .between => none

namespace Clause

/-- A test that a field has one of the values. -/
def anyOf (t : Target) (v : Value) (vs : List Value) : Expr :=
  vs.foldl (fun e w => .or e (leaf t .equal w)) (leaf t .equal v)

/-- The disjunction grows at its right end. -/
theorem anyOf_concat (t : Target) (v : Value) (vs : List Value) (w : Value) :
    anyOf t v (vs ++ [w]) = .or (anyOf t v vs) (leaf t .equal w) := by
  rw [anyOf, List.foldl_append]
  rfl

/-- The tests that a clause on a field may become. -/
inductive Becomes (formats : List String) (c : Clause) (t : Target) : Expr → Prop
  | atLeast {lo : Value}
      (lower : coerce formats t c.minValue = .ok (some lo))
      (upper : coerce formats t c.maxValue = .ok none)
      (ordered : t.type.isOrdered = true) :
      Becomes formats c t (leaf t .greaterOrEqual lo)
  | atMost {hi : Value}
      (lower : coerce formats t c.minValue = .ok none)
      (upper : coerce formats t c.maxValue = .ok (some hi))
      (ordered : t.type.isOrdered = true) :
      Becomes formats c t (leaf t .lessOrEqual hi)
  | within {lo hi : Value}
      (lower : coerce formats t c.minValue = .ok (some lo))
      (upper : coerce formats t c.maxValue = .ok (some hi))
      (ordered : t.type.isOrdered = true) :
      Becomes formats c t (.and (leaf t .greaterOrEqual lo) (leaf t .lessOrEqual hi))
  | single {comparison : Comparison} {v : Value}
      (lower : coerce formats t c.minValue = .ok none)
      (upper : coerce formats t c.maxValue = .ok none)
      (operator : c.operator.comparison? = some comparison)
      (ordered : c.operator.needsOrder = true → t.type.isOrdered = true)
      (value : coerce formats t c.value = .ok (some v)) :
      Becomes formats c t (leaf t comparison v)
  | oneOf {v : Value} {vs : List Value}
      (lower : coerce formats t c.minValue = .ok none)
      (upper : coerce formats t c.maxValue = .ok none)
      (operator : c.operator = .isIn)
      (values : candidates formats t c.values = .ok (v :: vs)) :
      Becomes formats c t (anyOf t v vs)

variable {formats : List String} {c : Clause} {t : Target} {e : Expr}

theorem ordered_of_requireOrder {operator : String} {u : Unit}
    (h : requireOrder t operator = .ok u) : t.type.isOrdered = true := by
  unfold requireOrder at h
  split at h
  next ordered => exact ordered
  next => cases h

/-- A test against one operand needs the operand. -/
theorem eq_leaf_of_single {operator : Operator} {comparison : Comparison} {value : Option Value}
    (h : single t operator comparison value = .ok e) :
    ∃ v, value = some v ∧ e = leaf t comparison v := by
  cases value with
  | none => cases h
  | some v =>
      cases h
      exact ⟨v, rfl, rfl⟩

/-- The check of an operator that needs an order. -/
def orderCheck (c : Clause) (t : Target) : Except Fault Unit :=
  if c.operator.needsOrder then requireOrder t c.operator.name else .ok ()

/-- An operator with a comparison checks the order first and takes the operand then. -/
theorem compileOperator_of_comparison {comparison : Comparison}
    (hop : c.operator.comparison? = some comparison) (value : Option Value) :
    compileOperator formats c t value =
      orderCheck c t >>= fun _ => single t c.operator comparison value := by
  unfold compileOperator orderCheck
  cases h : c.operator <;> rw [h] at hop <;> cases hop <;> rfl

theorem compileOperator_of_isIn (hop : c.operator = .isIn) (value : Option Value) :
    compileOperator formats c t value = candidates formats t c.values >>= oneOf t := by
  unfold compileOperator
  rw [hop]
  rfl

/-- Without bounds, `Between` is refused in any case, but only after the order of the
field has been checked. -/
theorem compileOperator_of_between (hop : c.operator = .between) (value : Option Value) :
    compileOperator formats c t value =
      requireOrder t Operator.between.name >>= fun _ =>
        .error (.missingOperand t.name .between) := by
  unfold compileOperator
  rw [hop]
  rfl

/-- The test of a clause without bounds. -/
theorem compileOperator_becomes {value : Option Value}
    (hlower : coerce formats t c.minValue = .ok none)
    (hupper : coerce formats t c.maxValue = .ok none)
    (hvalue : coerce formats t c.value = .ok value)
    (h : compileOperator formats c t value = .ok e) : Becomes formats c t e := by
  cases hop : c.operator.comparison? with
  | some comparison =>
      rw [compileOperator_of_comparison hop] at h
      obtain ⟨_, hcheck, h⟩ := ok_of_bind h
      obtain ⟨v, rfl, rfl⟩ := eq_leaf_of_single h
      refine .single hlower hupper hop (fun needs => ?_) hvalue
      rw [orderCheck, if_pos needs] at hcheck
      exact ordered_of_requireOrder hcheck
  | none =>
      have hin : c.operator = .isIn ∨ c.operator = .between := by
        revert hop
        cases c.operator <;> simp [Operator.comparison?]
      rcases hin with hin | hbetween
      · rw [compileOperator_of_isIn hin] at h
        obtain ⟨values, hvalues, h⟩ := ok_of_bind h
        cases values with
        | nil => cases h
        | cons v vs =>
            cases h
            exact .oneOf hlower hupper hin hvalues
      · rw [compileOperator_of_between hbetween] at h
        obtain ⟨_, _, h⟩ := ok_of_bind h
        cases h

/-- The test of a clause on a field is of one of the five kinds, and the operand is read
even if it is not used. -/
theorem compileOn_becomes (h : compileOn formats c t = .ok e) :
    (∃ value, coerce formats t c.value = .ok value) ∧ Becomes formats c t e := by
  unfold compileOn at h
  obtain ⟨value, hvalue, h⟩ := ok_of_bind h
  obtain ⟨lower, hlower, h⟩ := ok_of_bind h
  obtain ⟨upper, hupper, h⟩ := ok_of_bind h
  refine ⟨⟨value, hvalue⟩, ?_⟩
  cases lower with
  | none =>
      cases upper with
      | none => exact compileOperator_becomes hlower hupper hvalue h
      | some hi =>
          obtain ⟨_, hordered, h⟩ := ok_of_bind h
          cases h
          exact .atMost hlower hupper (ordered_of_requireOrder hordered)
  | some lo =>
      cases upper with
      | none =>
          obtain ⟨_, hordered, h⟩ := ok_of_bind h
          cases h
          exact .atLeast hlower hupper (ordered_of_requireOrder hordered)
      | some hi =>
          obtain ⟨_, hordered, h⟩ := ok_of_bind h
          cases h
          exact .within hlower hupper (ordered_of_requireOrder hordered)

variable {ρ : Type} {schema : Schema ρ}

/-- A clause that is resolved has a name, and the schema knows it. -/
theorem resolve_eq_ok (h : resolve schema c = .ok t) :
    c.property ≠ "" ∧ schema.resolve? c.property = some t := by
  unfold resolve at h
  split at h
  next => cases h
  next hname =>
    split at h
    next u hu =>
      cases h
      exact ⟨hname, hu⟩
    next => cases h

/-- A clause becomes a test of one of the five kinds on the field of its name. -/
theorem compile_becomes (h : compile schema formats c = .ok e) :
    ∃ t, schema.resolve? c.property = some t ∧ Becomes formats c t e := by
  unfold compile at h
  obtain ⟨t, ht, h⟩ := ok_of_bind h
  exact ⟨t, (resolve_eq_ok ht).2, (compileOn_becomes h).2⟩

end Clause

namespace Condition

section Fold

variable {α : Type} (own : Clause → α) (join : Connector → α → α → α)

mutual

/-- Folds a condition: what its own clause gives, with what the nested conditions give
joined to it by `AND`, from left to right. -/
def fold : Condition → α
  | ⟨clause, nested⟩ => foldNested (own clause) nested

/-- Joins what nested conditions give. -/
def foldNested (a : α) : List Condition → α
  | [] => a
  | c :: cs => foldNested (join .and a (fold c)) cs

end

/-- Joins what the conditions of a list give, each by its own connector. -/
def foldRest (a : α) : List Condition → α
  | [] => a
  | c :: cs => foldRest (join c.clause.connector a (fold own join c)) cs

/-- A total over clauses that can be joined from parts by `AND`. -/
structure Totals (total : List (Position × Clause) → α) : Prop where
  nil : ∀ a, join .and a (total []) = a
  cons : ∀ x xs, total (x :: xs) = join .and (own x.2) (total xs)
  append : ∀ xs ys, total (xs ++ ys) = join .and (total xs) (total ys)
  assoc : ∀ a b c, join .and (join .and a b) c = join .and a (join .and b c)

variable {own join} {total : List (Position × Clause) → α} (htotal : Totals own join total)
include htotal

mutual

/-- A condition is folded to the total over its clauses. -/
theorem fold_eq_total (position : Position) : ∀ c : Condition,
    fold own join c = total (clauses position c)
  | ⟨clause, nested⟩ => by
      rw [fold, clauses, htotal.cons, foldNested_eq_total position 0 nested]

/-- Folding nested conditions is joining the total of their clauses. -/
theorem foldNested_eq_total (position : Position) (place : Nat) :
    ∀ (cs : List Condition) (a : α),
      foldNested own join a cs = join .and a (total (clausesNested position place cs))
  | [], a => by
      rw [foldNested, clausesNested, htotal.nil]
  | c :: cs, a => by
      rw [foldNested, clausesNested, foldNested_eq_total position (place + 1) cs,
        fold_eq_total (position.child place) c, htotal.append, htotal.assoc]

end

end Fold

section Induction

variable {ρ : Type} {schema : Schema ρ} {formats : List String}
variable {α : Type} {own : Clause → α} {join : Connector → α → α → α}
variable {R : α → Expr → Prop}

variable (schema formats own join R) in
/-- A relation between a fold and expressions that holds of clauses and is kept when
both sides are joined. -/
structure Respects : Prop where
  clause : ∀ (c : Clause) (e : Expr), c.compile schema formats = .ok e → R (own c) e
  joined : ∀ (k : Connector) (a b : α) (x y : Expr), R a x → R b y →
    R (join k a b) (k.join x y)

variable (hR : Respects schema formats own join R)
include hR

mutual

/-- A relation that is kept holds between what a condition is folded to and what it is
compiled to. -/
theorem compile_fold (position : Position) : ∀ (c : Condition) (e : Expr),
    (compile schema formats position c).outcome = .ok e → R (fold own join c) e
  | ⟨clause, nested⟩, e, h => by
      rw [compile, Noted.outcome_bind, Clause.outcome_compileAt] at h
      obtain ⟨x, hx, h⟩ := ok_of_bind h
      have hclause := hR.clause clause x (Fault.at_eq_ok.mp hx)
      rw [fold]
      exact compileNested_fold position 0 nested _ x e hclause h

/-- What the nested conditions compile to is related to their fold; their own connectors
are not looked at, since nested conditions are always joined by `AND`. -/
theorem compileNested_fold (position : Position) (place : Nat) :
    ∀ (cs : List Condition) (a : α) (x e : Expr), R a x →
      (compileNested schema formats position place x cs).outcome = .ok e →
      R (foldNested own join a cs) e
  | [], a, x, e, hax, h => by
      cases h
      exact hax
  | c :: cs, a, x, e, hax, h => by
      rw [compileNested, Noted.outcome_bind] at h
      obtain ⟨y, hy, h⟩ := ok_of_bind h
      have hcy := compile_fold (position.child place) c y hy
      have hjoined := hR.joined .and _ _ _ _ hax hcy
      exact compileNested_fold position (place + 1) cs _ _ e hjoined h

end

/-- What the conditions after the first compile to is related to their fold. -/
theorem compileRest_fold {index : Nat} {cs : List Condition} {a : α} {x e : Expr}
    (hax : R a x) (h : (compileRest schema formats index x cs).outcome = .ok e) :
    R (foldRest own join a cs) e := by
  induction cs generalizing index a x with
  | nil =>
      cases h
      exact hax
  | cons c cs ih =>
      rw [compileRest, Noted.outcome_bind] at h
      obtain ⟨y, hy, h⟩ := ok_of_bind h
      have hcy := compile_fold hR ⟨index, []⟩ c y hy
      exact ih (hR.joined c.clause.connector _ _ _ _ hax hcy) h

/-- What a list of conditions is compiled to is related to what it is folded to. -/
theorem compileAll_fold {cs : List Condition} {e : Expr}
    (h : (compileAll schema formats cs).outcome = .ok e) :
    ∃ first rest, cs = first :: rest ∧
      R (foldRest own join (fold own join first) rest) e := by
  cases cs with
  | nil => cases h
  | cons first rest =>
      rw [compileAll, Noted.outcome_bind] at h
      obtain ⟨x, hx, h⟩ := ok_of_bind h
      have hfirst := compile_fold hR ⟨0, []⟩ first x hx
      exact ⟨first, rest, rfl, compileRest_fold hR hfirst h⟩

end Induction

end Condition

/-- A predicate holds the expression that its conditions are compiled to. -/
theorem Predicate.compile_eq_ok {ρ : Type} {schema : Schema ρ} {formats : List String}
    {cs : List Condition} {p : Predicate ρ} (h : compile schema formats cs = .ok p) :
    p.schema = schema ∧ (Condition.compileAll schema formats cs).outcome = .ok p.expr := by
  rw [compile_eq] at h
  split at h
  next e he =>
    cases h
    exact ⟨rfl, he⟩
  next => cases h

/-- What a gauge shows: a small record to try conditions on. -/
structure Gauge where
  level : Int64
  load : Binary64
  state : String

namespace Gauge

def states : EnumType := ⟨"State", ["Idle", "Busy"]⟩

def schema : Schema Gauge :=
  .build "Gauge"
    [⟨"level", .int, Gauge.level⟩, ⟨"load", .float, Gauge.load⟩,
      ⟨"state", .enum states, Gauge.state⟩]

/-- Conditions on a gauge: an idle or busy one of some level, or one whose load is out
of the question, and in either case a low level. -/
def rules : List Condition :=
  [((Condition.on "state" .isIn).withValues ["", " Busy ", "Idle"]).withNested
      ((Condition.between "level" "-5" "+07").joinedBy .or),
    ((Condition.on "load" .greaterThan).withValue "NaN").joinedBy .or,
    ((Condition.on "level" .lessThan).withValue "3").joinedBy .and]

/-- The test that the conditions on a gauge are compiled to. -/
def test : Expr :=
  .and
    (.or
      (.and
        (.or (.compare 2 "state" .equal (.member "Busy"))
          (.compare 2 "state" .equal (.member "Idle")))
        (.and (.compare 0 "level" .greaterOrEqual (.int (-5)))
          (.compare 0 "level" .lessOrEqual (.int 7))))
      (.compare 1 "load" .greater (.float (.nan false))))
    (.compare 0 "level" .less (.int 3))

theorem compile_rules (formats : List String) :
    Predicate.compile schema formats rules = .ok ⟨schema, test⟩ := rfl

end Gauge

end FieldRules
