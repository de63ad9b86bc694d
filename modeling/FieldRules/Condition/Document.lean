import FieldRules.Json
import FieldRules.Condition

/-!
# Conditions as JSON documents

A condition is an object of eleven members, or an array of their values in order.
Members that are left out have their default values, and unknown ones do not count.
-/

namespace FieldRules
namespace Condition

def operatorNames : List (String × Operator) :=
  Operator.all.map fun o => (o.name, o)

def connectorNames : List (String × Connector) :=
  Connector.all.map fun c => (c.name, c)

def memberNames : List String :=
  ["id", "propertyName", "operator", "value", "values", "minValue", "maxValue", "dataType",
    "logicalOperator", "parentId", "additionalConditions"]

mutual

def encode : Condition → Json
  | ⟨c, nested⟩ =>
      .object <| .ofList
        [("id", Json.ofNumber? c.id),
          ("propertyName", .text c.property),
          ("operator", .text c.operator.name),
          ("value", Json.ofText? c.value),
          ("values", .array (c.values.map Json.text)),
          ("minValue", Json.ofText? c.minValue),
          ("maxValue", Json.ofText? c.maxValue),
          ("dataType", Json.ofText? c.dataType),
          ("logicalOperator", .text c.connector.name),
          ("parentId", Json.ofNumber? c.parentId),
          ("additionalConditions", .array (encodeList nested))]
        (by simp)

def encodeList : List Condition → List Json
  | [] => []
  | c :: cs => encode c :: encodeList cs

end

/-- Reads a member of a clause; a member of another name changes nothing. -/
def decodeClauseMember (c : Clause) (name : String) (j : Json) : Except Misfit Clause :=
  match name with
  | "id" => do return { c with id := ← Json.decodeNumber? j }
  | "propertyName" => do return { c with property := ← Json.decodeText j }
  | "operator" => do return { c with operator := ← Json.decodeVariant operatorNames j }
  | "value" => do return { c with value := ← Json.decodeText? j }
  | "values" => do return { c with values := ← Json.decodeTexts j }
  | "minValue" => do return { c with minValue := ← Json.decodeText? j }
  | "maxValue" => do return { c with maxValue := ← Json.decodeText? j }
  | "dataType" => do return { c with dataType := ← Json.decodeText? j }
  | "logicalOperator" => do
      return { c with connector := ← Json.decodeVariant connectorNames j }
  | "parentId" => do return { c with parentId := ← Json.decodeNumber? j }
  | _ => .ok c

mutual

/-- Reads a condition. -/
def decode : Json → Except Misfit Condition
  | .object ⟨members⟩ => decodeMembers {} members
  | .array items => decodeItems items.length {} memberNames items
  | j => .error (.shape j (.structure "Condition"))

def decodeMembers {names : List String} (c : Condition) :
    Entries Json names → Except Misfit Condition
  | .nil => .ok c
  | .cons name j rest _ => do decodeMembers (← decodeMember c name j) rest

/-- Reads values onto a condition, one for each name. -/
def decodeItems (length : Nat) (c : Condition) (names : List String) :
    List Json → Except Misfit Condition
  | [] => .ok c
  | j :: js =>
      match names with
      | [] => .error (.tooLong length)
      | name :: names => do decodeItems length (← decodeMember c name j) names js

def decodeMember (c : Condition) (name : String) : Json → Except Misfit Condition
  | .array items =>
      if name = "additionalConditions" then do return { c with nested := ← decodeList items }
      else do return { c with clause := ← decodeClauseMember c.clause name (.array items) }
  | j =>
      if name = "additionalConditions" then .error (.shape j .sequence)
      else do return { c with clause := ← decodeClauseMember c.clause name j }

/-- Reads the items of an array of conditions. -/
def decodeList : List Json → Except Misfit (List Condition)
  | [] => .ok []
  | j :: js => do
      let c ← decode j
      let cs ← decodeList js
      return c :: cs

end

def decodeArray : Json → Except Misfit (List Condition)
  | .array items => decodeList items
  | j => .error (.shape j .sequence)

end Condition
end FieldRules
