import FieldRules.Condition.Encoding
import FieldRules.Text.Outline

/-!
# Options of a compiler

What a compiler remembers predicates by, and the date formats it reads operands
with.
-/

namespace FieldRules

/-- The options of a compiler. -/
structure Options where
  keyMode : KeyMode := .content
  dateFormats : List String :=
    ["%Y-%m-%dT%H:%M:%S%.f", "%Y-%m-%d %H:%M:%S%.f", "%Y-%m-%d", "%m/%d/%Y %H:%M:%S",
      "%m/%d/%Y"]
  initialCapacity : UInt64 := 64
deriving DecidableEq, Repr, Inhabited

namespace Options

def withKeyMode (mode : KeyMode) (o : Options) : Options :=
  { o with keyMode := mode }

def withDateFormats (formats : List String) (o : Options) : Options :=
  { o with dateFormats := formats }

/-- Changes the number of predicates that a compiler starts with room for. -/
def withInitialCapacity (capacity : UInt64) (o : Options) : Options :=
  { o with initialCapacity := capacity }

def inspect (o : Options) : String :=
  Outline.labelled "CompilerOptions"
    [("cache_key", o.keyMode.inspect),
      ("date_formats", Outline.listed (o.dateFormats.map Text.quoted)),
      ("initial_capacity", toString o.initialCapacity.toNat)]

end Options
end FieldRules
