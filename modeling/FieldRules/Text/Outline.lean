import FieldRules.Text.Quoted

/-!
# Outlines

The text of nested data for inspection: a name with labelled parts in braces, a
name with arguments in parentheses, and lists in brackets.
-/

namespace FieldRules
namespace Outline

/-- Parts one after the other, with a comma and a space between them. -/
def commas (parts : List String) : String :=
  ", ".intercalate parts

/-- A name and its labelled parts. -/
def labelled (name : String) (parts : List (String × String)) : String :=
  name ++ " \x7b " ++ commas (parts.map fun p => p.1 ++ ": " ++ p.2) ++ " \x7d"

/-- A name and its arguments; a pair has the empty name. -/
def application (name : String) (arguments : List String) : String :=
  name ++ "(" ++ commas arguments ++ ")"

/-- The items of a list. -/
def listed (items : List String) : String :=
  "[" ++ commas items ++ "]"

end Outline
end FieldRules
