/-!
# Conditions

A condition compares one field of a record with texts, and may carry further
conditions.  Its own part is a clause; the conditions nested in it form a list.
A list of conditions is read from left to right, each joined to all before it by
its connector.

**Results.**
* `Condition.decEq`: conditions of any depth can be told apart.
-/

namespace FieldRules

/-- How a clause compares its field. -/
inductive Operator
  | equals
  | greaterThan
  | lessThan
  | greaterThanOrEqualTo
  | lessThanOrEqualTo
  | isIn
  | between
deriving DecidableEq, Repr, Inhabited

namespace Operator

def name : Operator → String
  | .equals => "Equals"
  | .greaterThan => "GreaterThan"
  | .lessThan => "LessThan"
  | .greaterThanOrEqualTo => "GreaterThanOrEqualTo"
  | .lessThanOrEqualTo => "LessThanOrEqualTo"
  | .isIn => "In"
  | .between => "Between"

/-- Whether an operator needs an order on the field. -/
def needsOrder : Operator → Bool
  | .equals | .isIn => false
  | _ => true

def all : List Operator :=
  [.equals, .greaterThan, .lessThan, .greaterThanOrEqualTo, .lessThanOrEqualTo, .isIn,
    .between]

/-- The place of an operator among all operators. -/
def code : Operator → UInt8
  | .equals => 0
  | .greaterThan => 1
  | .lessThan => 2
  | .greaterThanOrEqualTo => 3
  | .lessThanOrEqualTo => 4
  | .isIn => 5
  | .between => 6

end Operator

/-- What joins a condition to the conditions before it. -/
inductive Connector
  | or
  | and
deriving DecidableEq, Repr, Inhabited

namespace Connector

def name : Connector → String
  | .or => "OR"
  | .and => "AND"

def all : List Connector := [.or, .and]

/-- The place of a connector among both. -/
def code : Connector → UInt8
  | .or => 0
  | .and => 1

end Connector

/-- The own part of a condition.  The nominal data type is only information; the
type of the field counts. -/
structure Clause where
  id : Option UInt32 := none
  property : String := ""
  operator : Operator := .equals
  value : Option String := none
  values : List String := []
  minValue : Option String := none
  maxValue : Option String := none
  dataType : Option String := none
  connector : Connector := .or
  parentId : Option UInt32 := none
deriving DecidableEq, Repr, Inhabited

/-- A clause with the conditions nested in it. -/
structure Condition where
  clause : Clause := {}
  nested : List Condition := []
deriving Repr, Inhabited

namespace Condition

mutual

/-- Decides whether two conditions are equal. -/
def decEq : (a b : Condition) → Decidable (a = b)
  | ⟨c, ns⟩, ⟨d, ms⟩ =>
      match decEqList ns ms with
      | isTrue h =>
          if h' : c = d then isTrue (by rw [h, h'])
          else isFalse (by intro e; cases e; exact h' rfl)
      | isFalse h => isFalse (by intro e; cases e; exact h rfl)

/-- Decides whether two lists of conditions are equal. -/
def decEqList : (as bs : List Condition) → Decidable (as = bs)
  | [], [] => isTrue rfl
  | [], _ :: _ => isFalse (by intro e; cases e)
  | _ :: _, [] => isFalse (by intro e; cases e)
  | a :: as, b :: bs =>
      match decEq a b, decEqList as bs with
      | isTrue h, isTrue h' => isTrue (by rw [h, h'])
      | isFalse h, _ => isFalse (by intro e; cases e; exact h rfl)
      | _, isFalse h => isFalse (by intro e; cases e; exact h rfl)

end

instance : DecidableEq Condition := decEq

/-- The condition with a property name and an operator. -/
def on (property : String) (operator : Operator) : Condition :=
  { clause := { property := property, operator := operator } }

/-- The condition that a property lies between two bounds. -/
def between (property lower upper : String) : Condition :=
  { clause :=
      { property := property
        operator := .between
        minValue := some lower
        maxValue := some upper } }

def mapClause (f : Clause → Clause) (c : Condition) : Condition :=
  { c with clause := f c.clause }

def withId (id : UInt32) : Condition → Condition :=
  mapClause fun c => { c with id := some id }

def withValue (value : String) : Condition → Condition :=
  mapClause fun c => { c with value := some value }

/-- Gives a condition its candidates, in place of those it has. -/
def withValues (values : List String) : Condition → Condition :=
  mapClause fun c => { c with values := values }

def withMin (value : String) : Condition → Condition :=
  mapClause fun c => { c with minValue := some value }

def withMax (value : String) : Condition → Condition :=
  mapClause fun c => { c with maxValue := some value }

def withDataType (dataType : String) : Condition → Condition :=
  mapClause fun c => { c with dataType := some dataType }

def joinedBy (connector : Connector) : Condition → Condition :=
  mapClause fun c => { c with connector := connector }

/-- Gives a condition the number of its parent. -/
def withParent (id : UInt32) : Condition → Condition :=
  mapClause fun c => { c with parentId := some id }

/-- Nests a condition in another one, after those nested in it. -/
def withNested (c nested : Condition) : Condition :=
  { c with nested := c.nested ++ [nested] }

end Condition
end FieldRules
