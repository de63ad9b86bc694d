import FieldRules.Json
import FieldRules.Compiler.Options

/-!
# Options as JSON documents

Options are an object of three members, or an array of their values in order.
Members that are left out have their default values, and unknown ones do not count.
-/

namespace FieldRules

def KeyMode.names : List (String × KeyMode) :=
  KeyMode.all.map fun m => (m.name, m)

namespace Options

def memberNames : List String :=
  ["cache_key", "date_formats", "initial_capacity"]

def encode (o : Options) : Json :=
  .object <| .ofList
    [("cache_key", .text o.keyMode.name),
      ("date_formats", .array (o.dateFormats.map Json.text)),
      ("initial_capacity", .integer o.initialCapacity.toNat)]
    (by simp)

/-- Reads a member of options; a member of another name changes nothing. -/
def decodeMember (o : Options) (name : String) (j : Json) : Except Misfit Options :=
  match name with
  | "cache_key" => do return { o with keyMode := ← Json.decodeVariant KeyMode.names j }
  | "date_formats" => do return { o with dateFormats := ← Json.decodeTexts j }
  | "initial_capacity" => do
      let n ← Json.decodeBelow Json.word64Limit .word64 j
      return { o with initialCapacity := UInt64.ofNat n }
  | _ => .ok o

def decodeMembers (o : Options) : List (String × Json) → Except Misfit Options
  | [] => .ok o
  | (name, j) :: ms => do decodeMembers (← decodeMember o name j) ms

/-- Reads values onto options, one for each name. -/
def decodeItems (length : Nat) (o : Options) (names : List String) :
    List Json → Except Misfit Options
  | [] => .ok o
  | j :: js =>
      match names with
      | [] => .error (.tooLong length)
      | name :: names => do decodeItems length (← decodeMember o name j) names js

def decode : Json → Except Misfit Options
  | .object members => decodeMembers {} members.toList
  | .array items => decodeItems items.length {} memberNames items
  | j => .error (.shape j (.structure "CompilerOptions"))

end Options
end FieldRules
