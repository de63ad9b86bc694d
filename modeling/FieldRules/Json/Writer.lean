import FieldRules.Json

/-!
# Writing JSON texts

A value as a text without blanks.
-/

namespace FieldRules
namespace Json

def escape (c : Char) : List Char :=
  if c = '"' then ['\\', '"']
  else if c = '\\' then ['\\', '\\']
  else if c = '\n' then ['\\', 'n']
  else if c = '\r' then ['\\', 'r']
  else if c = '\t' then ['\\', 't']
  else if c.toNat < 0x20 then ['\\', 'u'] ++ List.leftpad 4 '0' (Nat.toDigits 16 c.toNat)
  else [c]

def writeText (s : String) : String :=
  String.ofList ('"' :: s.toList.flatMap escape ++ ['"'])

mutual

def write : Json → String
  | .null => "null"
  | .bool b => if b then "true" else "false"
  | .integer n => String.ofList (Integer.display n)
  | .real x => String.ofList (Binary64.documentLayout.text x)
  | .text s => writeText s
  | .array items => "[" ++ ",".intercalate (writeItems items) ++ "]"
  | .object ⟨members⟩ => "\x7b" ++ ",".intercalate (writeMembers members) ++ "\x7d"

def writeItems : List Json → List String
  | [] => []
  | j :: js => write j :: writeItems js

def writeMembers {names : List String} : Entries Json names → List String
  | .nil => []
  | .cons name j rest _ => (writeText name ++ ":" ++ write j) :: writeMembers rest

end

end Json
end FieldRules
