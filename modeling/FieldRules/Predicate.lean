import FieldRules.Predicate.Compilation

/-!
# Predicates

A list of conditions compiled against a schema: a decision on the records of the
schema's type.

**Results.**
* `compile_eq`: compiling succeeds as the compilation of the expression does.
* `schema_of_compile`: a predicate keeps the schema it was compiled against.
-/

namespace FieldRules

/-- A decision on records of a type `ρ`. -/
structure Predicate (ρ : Type) where
  schema : Schema ρ
  expr : Expr

namespace Predicate

variable {ρ : Type}

/-- Compiles a list of conditions against a schema, with a note for every condition
visited. -/
def compiling (schema : Schema ρ) (formats : List String) (conditions : List Condition) :
    Compiling (Predicate ρ) := do
  let expr ← Condition.compileAll schema formats conditions
  return ⟨schema, expr⟩

/-- Compiles a list of conditions against a schema. -/
def compile (schema : Schema ρ) (formats : List String) (conditions : List Condition) :
    Except CompileError (Predicate ρ) :=
  (compiling schema formats conditions).outcome

/-- The value of the field at an index in a record. -/
def value (p : Predicate ρ) (record : ρ) (index : Nat) : Option Value :=
  p.schema.read? index record

/-- Whether a record satisfies a predicate. -/
def evaluate (p : Predicate ρ) (record : ρ) : Bool :=
  p.expr.holds (p.value record)

/-- The names of the fields that an evaluation reads, in order. -/
def reads (p : Predicate ρ) (record : ρ) : List String :=
  (p.expr.reads (p.value record)).filterMap fun i => (p.schema.fields[i]?).map Field.name

/-- The places of the records that satisfy a predicate. -/
def selectFrom (p : Predicate ρ) (index : Nat) : List ρ → List Nat
  | [] => []
  | r :: rs =>
      if p.evaluate r then index :: selectFrom p (index + 1) rs
      else selectFrom p (index + 1) rs

/-- The places of the records that satisfy a predicate, in a whole list. -/
def select (p : Predicate ρ) (records : List ρ) : List Nat :=
  p.selectFrom 0 records

def recordName (p : Predicate ρ) : String := p.schema.name

def comparisons (p : Predicate ρ) : Nat := p.expr.comparisons

def display (p : Predicate ρ) : String := p.expr.display

def inspect (p : Predicate ρ) : String :=
  Outline.labelled "Predicate"
    [("record", Text.quoted p.schema.name), ("expr", p.expr.inspect)]

/-- Compiling succeeds as the compilation of the expression does. -/
theorem compile_eq (schema : Schema ρ) (formats : List String) (conditions : List Condition) :
    compile schema formats conditions =
      match (Condition.compileAll schema formats conditions).outcome with
      | .ok e => .ok ⟨schema, e⟩
      | .error e => .error e := by
  unfold compile compiling
  rw [Noted.outcome_bind]
  cases (Condition.compileAll schema formats conditions).outcome <;> rfl

/-- A predicate keeps the schema it was compiled against. -/
theorem schema_of_compile {schema : Schema ρ} {formats : List String}
    {conditions : List Condition} {p : Predicate ρ}
    (h : compile schema formats conditions = .ok p) : p.schema = schema := by
  rw [compile_eq] at h
  split at h
  next => cases h; rfl
  next => cases h

end Predicate
end FieldRules
