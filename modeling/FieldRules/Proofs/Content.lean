import FieldRules.Condition.Encoding
import FieldRules.Predicate

/-!
# The content of conditions

The nominal data type of a condition and the number of its parent are information
for people.  What is left without them, on every level of nesting, is the content of
the condition.  A key mode sees of a list either the content of its conditions or
only the signatures of those on the top level.

**Results.**
* `ofConditions_contentAll`: conditions are encoded by their content.
* `compiling_contentAll`: conditions are compiled by their content.
-/

namespace FieldRules

namespace Clause

/-- The property name, operator and number of a clause. -/
def signature (c : Clause) : String × Operator × Option UInt32 :=
  (c.property, c.operator, c.id)

/-- A clause without its nominal data type and the number of its parent. -/
def content (c : Clause) : Clause :=
  { c with dataType := none, parentId := none }

end Clause

namespace Condition

mutual

/-- A condition without the nominal data types and the numbers of parents in it. -/
def content : Condition → Condition
  | ⟨clause, nested⟩ => ⟨clause.content, contentAll nested⟩

/-- The contents of conditions. -/
def contentAll : List Condition → List Condition
  | [] => []
  | c :: cs => content c :: contentAll cs

end

@[simp] theorem contentAll_length (cs : List Condition) :
    (contentAll cs).length = cs.length := by
  induction cs with
  | nil => rfl
  | cons c cs ih => simp [contentAll, ih]

@[simp] theorem clause_content (c : Condition) : c.content.clause = c.clause.content := by
  cases c with
  | mk clause nested => rw [content]

end Condition

/-- Whether two lists of conditions look the same under a key mode. -/
def KeyMode.Agree : KeyMode → List Condition → List Condition → Prop
  | .structural, as, bs =>
      as.map (fun c => c.clause.signature) = bs.map (fun c => c.clause.signature)
  | .content, as, bs => Condition.contentAll as = Condition.contentAll bs

namespace Encoding

mutual

/-- A condition is encoded by its content. -/
theorem ofCondition_content : ∀ c : Condition, ofCondition c.content = ofCondition c
  | ⟨clause, nested⟩ => by
      rw [Condition.content, ofCondition, ofCondition, ofConditions_contentAll nested,
        Condition.contentAll_length]
      rfl

theorem ofConditions_contentAll :
    ∀ cs : List Condition, ofConditions (Condition.contentAll cs) = ofConditions cs
  | [] => rfl
  | c :: cs => by
      rw [Condition.contentAll, ofConditions, ofConditions, ofCondition_content c,
        ofConditions_contentAll cs]

end

end Encoding

section Compilation

variable {ρ : Type} (schema : Schema ρ) (formats : List String)

theorem Clause.compileAt_content (position : Position) (c : Clause) :
    c.content.compileAt schema formats position = c.compileAt schema formats position := rfl

namespace Condition

mutual

/-- A condition is compiled by its content. -/
theorem compile_content (position : Position) :
    ∀ c : Condition, compile schema formats position c.content = compile schema formats position c
  | ⟨clause, nested⟩ => by
      rw [content, compile, compile, Clause.compileAt_content]
      congr 1
      funext own
      exact compileNested_contentAll position 0 own nested

theorem compileNested_contentAll (position : Position) (place : Nat) (e : Expr) :
    ∀ cs : List Condition,
      compileNested schema formats position place e (contentAll cs) =
        compileNested schema formats position place e cs
  | [] => rfl
  | c :: cs => by
      rw [contentAll, compileNested, compileNested, compile_content (position.child place) c]
      congr 1
      funext next
      exact compileNested_contentAll position (place + 1) (.and e next) cs

end

theorem compileRest_contentAll (index : Nat) (e : Expr) (cs : List Condition) :
    compileRest schema formats index e (contentAll cs) =
      compileRest schema formats index e cs := by
  induction cs generalizing index e with
  | nil => rfl
  | cons c cs ih =>
      rw [contentAll, compileRest, compileRest, compile_content]
      congr 1
      funext next
      rw [clause_content]
      exact ih (index + 1) (c.clause.connector.join e next)

/-- The compilation of conditions reads their content only. -/
theorem compileAll_contentAll (cs : List Condition) :
    compileAll schema formats (contentAll cs) = compileAll schema formats cs := by
  cases cs with
  | nil => rfl
  | cons c cs =>
      rw [contentAll, compileAll, compileAll, compile_content]
      congr 1
      funext first
      exact compileRest_contentAll schema formats 1 first cs

end Condition

/-- Conditions are compiled by their content, notes included. -/
theorem Predicate.compiling_contentAll (cs : List Condition) :
    compiling schema formats (Condition.contentAll cs) = compiling schema formats cs := by
  unfold compiling
  rw [Condition.compileAll_contentAll]

/-- Lists of one content are compiled alike. -/
theorem Predicate.compile_eq_of_agree {as bs : List Condition}
    (h : KeyMode.content.Agree as bs) :
    compile schema formats as = compile schema formats bs := by
  have hc : Condition.contentAll as = Condition.contentAll bs := h
  unfold compile
  rw [← compiling_contentAll schema formats as, hc, compiling_contentAll]

end Compilation

end FieldRules
