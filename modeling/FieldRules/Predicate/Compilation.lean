import FieldRules.Predicate.Fault
import FieldRules.Predicate.Expr
import FieldRules.Predicate.Noted

/-!
# Compilation

Conditions compiled into expressions over a schema: every name becomes an index
and every operand a constant of the field's type.  The conditions of a list are
joined from left to right, each by its own connector; the first connector does not
count.  Nested conditions are always joined by `AND` to the condition they are
nested in.  Every clause is noted when its field has been found.

**Results.**
* `Clause.outcome_compileAt`: a clause compiles to its test, whatever is noted.
-/

namespace FieldRules

namespace Clause

variable {ρ : Type} (schema : Schema ρ) (formats : List String)

/-- The field that a clause is about. -/
def resolve (c : Clause) : Except Fault Target :=
  if c.property = "" then .error .emptyPropertyName
  else
    match schema.resolve? c.property with
    | some t => .ok t
    | none => .error (.unknownField c.property schema.name)

/-- The value of an operand for a field. -/
def coerce (t : Target) : Option String → Except Fault (Option Value)
  | none => .ok none
  | some raw =>
      match Operand.coerce formats t.type raw with
      | .ok v => .ok v
      | .error e => .error (.coercion t.name raw t.type.name e)

/-- Checks that an order is defined for a field. -/
def requireOrder (t : Target) (operator : String) : Except Fault Unit :=
  if t.type.isOrdered then .ok ()
  else .error (.unsupportedOperator t.name operator t.type.name)

/-- The comparison of a field with a constant. -/
def leaf (t : Target) (comparison : Comparison) (v : Value) : Expr :=
  .compare t.index t.name comparison v

/-- The values of the candidates that are not empty, in order. -/
def candidates (t : Target) : List String → Except Fault (List Value)
  | [] => .ok []
  | raw :: raws => do
      let v ← coerce formats t (some raw)
      let vs ← candidates t raws
      return v.toList ++ vs

/-- The test that a field has one of some values. -/
def oneOf (t : Target) : List Value → Except Fault Expr
  | [] => .error (.emptyCandidates t.name)
  | v :: vs => .ok (vs.foldl (fun e w => .or e (leaf t .equal w)) (leaf t .equal v))

/-- The test of a field against its operand. -/
def single (t : Target) (operator : Operator) (comparison : Comparison) :
    Option Value → Except Fault Expr
  | some v => .ok (leaf t comparison v)
  | none => .error (.missingOperand t.name operator)

/-- The test of a clause without bounds. -/
def compileOperator (c : Clause) (t : Target) (value : Option Value) : Except Fault Expr := do
  if c.operator.needsOrder then
    requireOrder t c.operator.name
  match c.operator with
  | .equals => single t c.operator .equal value
  | .greaterThan => single t c.operator .greater value
  | .lessThan => single t c.operator .less value
  | .greaterThanOrEqualTo => single t c.operator .greaterOrEqual value
  | .lessThanOrEqualTo => single t c.operator .lessOrEqual value
  | .isIn => do oneOf t (← candidates formats t c.values)
  | .between => .error (.missingOperand t.name .between)

/-- The test of a clause on a field.  Bounds come before the operator. -/
def compileOn (c : Clause) (t : Target) : Except Fault Expr := do
  let value ← coerce formats t c.value
  let lower ← coerce formats t c.minValue
  let upper ← coerce formats t c.maxValue
  match lower, upper with
  | none, none => compileOperator formats c t value
  | some lo, none => do
      requireOrder t "range bounds"
      return leaf t .greaterOrEqual lo
  | none, some hi => do
      requireOrder t "range bounds"
      return leaf t .lessOrEqual hi
  | some lo, some hi => do
      requireOrder t "range bounds"
      return .and (leaf t .greaterOrEqual lo) (leaf t .lessOrEqual hi)

/-- The test of a clause. -/
def compile (c : Clause) : Except Fault Expr := do
  let t ← resolve schema c
  compileOn formats c t

end Clause

/-- Puts a fault at a position. -/
def Fault.at {α : Type} (position : Position) : Except Fault α → Except CompileError α
  | .ok a => .ok a
  | .error f => .error (.fault position f)

/-- Joins an expression to what has been read before. -/
def Connector.join : Connector → Expr → Expr → Expr
  | .and, a, b => .and a b
  | .or, a, b => .or a b

/-- The note that a condition is being compiled, made once its field is known. -/
structure Visit where
  position : Position
  field : String
  operator : Operator
deriving DecidableEq, Repr

/-- The compilation of conditions to an `α`, with a note for every condition visited. -/
abbrev Compiling (α : Type) := Noted Visit CompileError α

def Clause.compileAt {ρ : Type} (schema : Schema ρ) (formats : List String)
    (position : Position) (c : Clause) : Compiling Expr := do
  let t ← Noted.of (Fault.at position (c.resolve schema))
  Noted.note ⟨position, t.name, c.operator⟩
  Noted.of (Fault.at position (c.compileOn formats t))

namespace Condition

variable {ρ : Type} (schema : Schema ρ) (formats : List String)

mutual

/-- Compiles a condition: its own test, with every nested condition joined to it
by `AND`. -/
def compile (position : Position) : Condition → Compiling Expr
  | ⟨clause, nested⟩ => do
      let own ← clause.compileAt schema formats position
      compileNested position 0 own nested

/-- Joins the conditions nested from a place on to an expression. -/
def compileNested (position : Position) (place : Nat) (e : Expr) :
    List Condition → Compiling Expr
  | [] => return e
  | c :: cs => do
      let next ← compile (position.child place) c
      compileNested position (place + 1) (.and e next) cs

end

/-- Joins the conditions from a place of a list on to an expression. -/
def compileRest (index : Nat) (e : Expr) : List Condition → Compiling Expr
  | [] => return e
  | c :: cs => do
      let next ← compile schema formats ⟨index, []⟩ c
      compileRest (index + 1) (c.clause.connector.join e next) cs

/-- Compiles a list of conditions. -/
def compileAll : List Condition → Compiling Expr
  | [] => Noted.of (.error .emptyConditions)
  | c :: cs => do
      let first ← compile schema formats ⟨0, []⟩ c
      compileRest schema formats 1 first cs

end Condition

/-- A clause compiles to its test, at the clause's position. -/
theorem Clause.outcome_compileAt {ρ : Type} (schema : Schema ρ) (formats : List String)
    (position : Position) (c : Clause) :
    (c.compileAt schema formats position).outcome =
      Fault.at position (c.compile schema formats) := by
  unfold compileAt compile
  simp only [Noted.outcome_bind, Noted.outcome_of, Noted.outcome_note]
  cases c.resolve schema <;> rfl

end FieldRules
