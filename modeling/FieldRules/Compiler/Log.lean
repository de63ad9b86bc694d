import FieldRules.Digest
import FieldRules.Predicate.Compilation

/-!
# The log of a compiler

What a call of a compiler says: that it was made, whether a predicate was found,
which conditions have been visited, and how it failed.
-/

namespace FieldRules

/-- An entry of a log. -/
inductive LogEntry (δ : Type)
  | call (record : String) (conditions : Nat)
  | hit (digest : δ)
  | miss (digest : δ)
  | visit (visit : Visit)
  | failed (error : CompileError)
deriving DecidableEq, Repr

/-- How fine a log entry is. -/
inductive LogLevel
  | debug
  | trace
deriving DecidableEq, Repr

def LogLevel.name : LogLevel → String
  | .debug => "DEBUG"
  | .trace => "TRACE"

namespace LogEntry

variable {δ : Type}

def level : LogEntry δ → LogLevel
  | .visit _ => .trace
  | _ => .debug

/-- Whether an entry stands for a whole call. -/
def isSpan : LogEntry δ → Bool
  | .call _ _ => true
  | _ => false

/-- The fields of an entry, as texts by their names. -/
def fields [Digest δ] : LogEntry δ → List (String × String)
  | .call record conditions => [("record", record), ("conditions", toString conditions)]
  | .hit digest =>
      [("message", "predicate cache hit"), ("fingerprint", Digest.text digest)]
  | .miss digest =>
      [("message", "predicate cache miss, compiling"), ("fingerprint", Digest.text digest)]
  | .visit v =>
      [("message", "translating condition"), ("position", v.position.text),
        ("field", v.field), ("operator", v.operator.name)]
  | .failed error => [("message", "compilation failed"), ("error", error.message)]

end LogEntry
end FieldRules
