import FieldRules.Schema.Operand
import FieldRules.Condition.Position

/-!
# Compile errors

Why a list of conditions does not become a predicate: the list is empty, or the
condition at some position is at fault.
-/

namespace FieldRules

/-- Why a clause cannot be compiled. -/
inductive Fault
  | emptyPropertyName
  | unknownField (field record : String)
  | coercion (field raw target : String) (error : OperandError)
  | unsupportedOperator (field operator fieldType : String)
  | missingOperand (field : String) (operator : Operator)
  | emptyCandidates (field : String)
deriving DecidableEq, Repr

/-- Why conditions cannot be compiled. -/
inductive CompileError
  | emptyConditions
  | fault (position : Position) (fault : Fault)
deriving DecidableEq, Repr

namespace CompileError

/-- Whether an operand does not denote a value of its field's type. -/
def isCoercion : CompileError → Bool
  | .fault _ (.coercion _ _ _ _) => true
  | _ => false

/-- Whether conditions do not fit the schema or are incomplete. -/
def isValidation : CompileError → Bool
  | .fault _ (.coercion _ _ _ _) => false
  | _ => true

def message : CompileError → String
  | .emptyConditions => "no conditions supplied; at least one condition is required"
  | .fault position .emptyPropertyName =>
      "condition " ++ position.text ++ " has an empty property name"
  | .fault position (.unknownField field record) =>
      "condition " ++ position.text ++ ": property '" ++ field ++ "' not found in type '" ++
        record ++ "'"
  | .fault position (.coercion field raw target _) =>
      "condition " ++ position.text ++ ": cannot convert '" ++ raw ++ "' to " ++ target ++
        " for property '" ++ field ++ "'"
  | .fault position (.unsupportedOperator field operator fieldType) =>
      "condition " ++ position.text ++ ": '" ++ operator ++ "' is not defined for '" ++ field ++
        "' of type '" ++ fieldType ++ "'"
  | .fault position (.missingOperand field operator) =>
      "condition " ++ position.text ++ ": '" ++ operator.name ++ "' on '" ++ field ++
        "' has no operand"
  | .fault position (.emptyCandidates field) =>
      "condition " ++ position.text ++ ": 'In' on '" ++ field ++ "' has no candidate values"

/-- The operand error behind a compile error. -/
def source? : CompileError → Option OperandError
  | .fault _ (.coercion _ _ _ error) => some error
  | _ => none

end CompileError
end FieldRules
