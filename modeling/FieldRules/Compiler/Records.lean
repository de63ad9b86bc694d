import FieldRules.Predicate

/-!
# Record types

A family of record types, each with a schema of its own, and the schemas that are
supplied beside those.  A supplied schema is known by its name and by the address
of its field table, which its copies share; a schema built anew has another address,
even if it has the same fields.
-/

namespace FieldRules

/-- The record types that rules may be about, by their names in `κ`. -/
class RecordTypes (κ : Type) where
  /-- The records of a type. -/
  Record : κ → Type
  /-- The schema that a type has of its own. -/
  schema : (record : κ) → Schema (Record record)

/-- A schema with the address of its field table. -/
structure Handle (ρ : Type) where
  address : Nat
  schema : Schema ρ

/-- Which field table a predicate reads through: that of the record type itself, or
a supplied one. -/
inductive SchemaKey
  | own
  | supplied (name : String) (address : Nat)
deriving DecidableEq, Repr

def Handle.key {ρ : Type} (h : Handle ρ) : SchemaKey :=
  .supplied h.schema.name h.address

/-- A predicate as an object that can be shared: the number of the call that made
it, and the field table it holds on to. -/
structure Shared (ρ : Type) where
  serial : Nat
  source : SchemaKey
  predicate : Predicate ρ

end FieldRules
