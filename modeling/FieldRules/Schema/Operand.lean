import FieldRules.Schema
import FieldRules.Number.Decimal.Reader
import FieldRules.Number.Binary64.Reader
import FieldRules.Calendar.Instant

/-!
# Operands

An operand is a text that is to be compared with a field.  It denotes a value of
the field's type; an empty operand denotes none.  Blanks around an operand do not
count, except where the field holds texts.
-/

namespace FieldRules

/-- Why an operand does not denote a value of a type. -/
inductive OperandError
  | int (error : IntegerError)
  | float (error : FloatError)
  | decimal (error : DecimalError)
  | bool
  | dateTime (formats : List String)
  | member (e : EnumType)
deriving DecidableEq, Repr

namespace OperandError

/-- The name of the fixed date form, which is tried before all patterns. -/
def instantForm : String := "RFC 3339"

def message : OperandError → String
  | .int e => e.message
  | .float e => e.message
  | .decimal e => e.message
  | .bool => "expected 'true' or 'false'"
  | .dateTime formats =>
      "no date/time format matched (tried " ++ ", ".intercalate (instantForm :: formats) ++ ")"
  | .member e =>
      "not a member of " ++ e.name ++ " (expected one of " ++ ", ".intercalate e.members ++ ")"

/-- The name of the kind of an operand error. -/
def kind : OperandError → String
  | .int _ => "Int"
  | .float _ => "Float"
  | .decimal _ => "Decimal"
  | .bool => "Bool"
  | .dateTime _ => "DateTime"
  | .member _ => "EnumMember"

end OperandError

namespace Operand

/-- The truth value that a text denotes, in any case. -/
def bool? (s : List Char) : Option Bool :=
  let name := String.ofList (s.map Char.toLower)
  if name = "true" then some true else if name = "false" then some false else none

/-- The date-time that a text denotes under one date format: as a date-time, or
else as a date, which stands for its midnight. -/
def dateTimeUnder? (format : String) (s : List Char) : Option DateTime :=
  (Pattern.ofText? format).bind fun p =>
    (p.dateTime? s).or ((p.date? s).map DateTime.ofDate)

/-- The date-time that a text denotes under the first of some date formats that
fits it. -/
def firstDateTime? (s : List Char) : List String → Option DateTime
  | [] => none
  | format :: formats => (dateTimeUnder? format s).or (firstDateTime? s formats)

/-- The date-time that a text denotes: an instant, in universal time, or else what
the first fitting date format makes of it. -/
def dateTime? (formats : List String) (s : List Char) : Option DateTime :=
  (Instant.parse? s).or (firstDateTime? s formats)

/-- The value of a type that a text without blanks around it denotes. -/
def read (formats : List String) (s : List Char) : FieldType → Except OperandError Value
  | .int =>
      match Integer.parse s with
      | .ok n => .ok (.int (Int64.ofInt n))
      | .error e => .error (.int e)
  | .float =>
      match Binary64.parse s with
      | .ok x => .ok (.float x)
      | .error e => .error (.float e)
  | .decimal =>
      match Decimal.parse s with
      | .ok d => .ok (.decimal d)
      | .error e => .error (.decimal e)
  | .bool =>
      match bool? s with
      | some b => .ok (.bool b)
      | none => .error .bool
  | .dateTime =>
      match dateTime? formats s with
      | some t => .ok (.dateTime t)
      | none => .error (.dateTime formats)
  | .text => .ok (.text (String.ofList s))
  | .enum e =>
      if String.ofList s ∈ e.members then .ok (.member (String.ofList s))
      else .error (.member e)

/-- The value of a type that an operand denotes, or none if it is empty. -/
def coerce (formats : List String) (type : FieldType) (raw : String) :
    Except OperandError (Option Value) :=
  if raw = "" then .ok none
  else
    match type with
    | .text => .ok (some (.text raw))
    | type => (read formats (Text.trim raw.toList) type).map some

/-- An operand for a field that does not hold texts is read without the blanks around it. -/
theorem coerce_trim {formats : List String} {type : FieldType} {raw : String}
    (hraw : raw ≠ "") (htype : type ≠ .text) :
    coerce formats type raw = (read formats (Text.trim raw.toList) type).map some := by
  rw [coerce, if_neg hraw]
  exact htype

theorem coerce_ofList {formats : List String} {type : FieldType} {s : List Char} (hs : s ≠ [])
    (htype : type ≠ .text) :
    coerce formats type (String.ofList s) = (read formats (Text.trim s) type).map some := by
  have hne : String.ofList s ≠ "" := fun h => hs (by simpa using congrArg String.toList h)
  rw [coerce_trim hne htype, String.toList_ofList]

theorem read_admits {formats : List String} {s : List Char} {type : FieldType} {v : Value}
    (h : read formats s type = .ok v) : type.admits v = true := by
  cases type <;> simp only [read] at h <;> (try split at h) <;> cases h <;> rfl

end Operand
end FieldRules
