import FieldRules.Text.Blank
import FieldRules.Text.Unprintable
import FieldRules.Text.Combining

/-!
# Quoted texts

A text between double quotes with escapes: a backslash before a quote or a
backslash, short escapes for the usual control characters, and the code point in
hexadecimal for what does not print on its own.
-/

namespace FieldRules
namespace Text

/-- Whether a character is shown as itself between quotes. -/
def isShown (c : Char) : Bool :=
  !inRanges combiningRanges c.toNat && !inRanges unprintableRanges c.toNat &&
    !inRanges fillerRanges c.toNat

/-- The escape of a code point: its hexadecimal digits in braces. -/
def codePointEscape (c : Char) : List Char :=
  ['\\', 'u', '\x7b'] ++ Nat.toDigits 16 c.toNat ++ ['\x7d']

/-- A character as it stands between quotes. -/
def escape (c : Char) : List Char :=
  if c = '\x00' then ['\\', '0']
  else if c = '\t' then ['\\', 't']
  else if c = '\r' then ['\\', 'r']
  else if c = '\n' then ['\\', 'n']
  else if c = '"' then ['\\', '"']
  else if c = '\\' then ['\\', '\\']
  else if decide (0x20 ≤ c.toNat ∧ c.toNat ≤ 0x7e) || isShown c then [c]
  else codePointEscape c

def quoted (s : String) : String :=
  String.ofList ('"' :: s.toList.flatMap escape ++ ['"'])

end Text
end FieldRules
