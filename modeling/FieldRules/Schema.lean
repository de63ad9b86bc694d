import FieldRules.Schema.Value
import FieldRules.Dictionary

/-!
# Schemas

A schema is the field table of a record type: for every field a name, a type and
a way to read it off a record.  The type says what reading yields, so that a
field always holds values of its own type.  The names of the fields are distinct,
and an index tells where the field with a name stands.

**Results.**
* `nodup_registered`: registering fields leaves fields with distinct names.
* `find?_index_iff`: the index has a name where a field has it.
* `resolve?_eq_some_iff`: a name is resolved to the field that has it.
-/

namespace FieldRules

/-- An enumeration: its name and the names of its members. -/
structure EnumType where
  name : String
  members : List String
deriving DecidableEq, Repr

/-- The type of a field. -/
inductive FieldType
  | int
  | float
  | decimal
  | bool
  | dateTime
  | text
  | enum (e : EnumType)
deriving DecidableEq, Repr

namespace FieldType

/-- The name of a type, that of the enumeration for an enumeration. -/
def name : FieldType → String
  | .int => "int"
  | .float => "float"
  | .decimal => "decimal"
  | .bool => "bool"
  | .dateTime => "datetime"
  | .text => "text"
  | .enum e => e.name

/-- Whether values of a type have an order. -/
def isOrdered : FieldType → Bool
  | .int | .float | .decimal | .dateTime => true
  | .bool | .text | .enum _ => false

/-- What a field of a type holds; a member of an enumeration is held by its
name. -/
def Carrier : FieldType → Type
  | .int => Int64
  | .float => Binary64
  | .decimal => Decimal
  | .bool => Bool
  | .dateTime => DateTime
  | .text => String
  | .enum _ => String

def value : (t : FieldType) → t.Carrier → Value
  | .int, n => .int n
  | .float, x => .float x
  | .decimal, d => .decimal d
  | .bool, b => .bool b
  | .dateTime, t => .dateTime t
  | .text, s => .text s
  | .enum _, m => .member m

/-- Whether a value is of the kind that fields of a type hold. -/
def admits : FieldType → Value → Bool
  | .int, .int _ | .float, .float _ | .decimal, .decimal _ | .bool, .bool _
  | .dateTime, .dateTime _ | .text, .text _ | .enum _, .member _ => true
  | _, _ => false

def inspect : FieldType → String
  | .int => "Int"
  | .float => "Float"
  | .decimal => "Decimal"
  | .bool => "Bool"
  | .dateTime => "DateTime"
  | .text => "Text"
  | .enum e =>
      Outline.application "Enum"
        [Outline.labelled "EnumType"
          [("name", Text.quoted e.name),
            ("members", Outline.listed (e.members.map Text.quoted))]]

theorem admits_value (t : FieldType) (x : t.Carrier) : t.admits (t.value x) = true := by
  cases t <;> rfl

end FieldType

/-- A field of records of a type `ρ`. -/
structure Field (ρ : Type) where
  name : String
  type : FieldType
  get : ρ → type.Carrier

namespace Field

variable {ρ : Type}

def read (f : Field ρ) (record : ρ) : Value :=
  f.type.value (f.get record)

end Field

/-- The field table of records of a type `ρ`.  The index is filled with the places of the names,
one after the other. -/
structure Schema (ρ : Type) where
  name : String
  fields : List (Field ρ)
  index : Dictionary Nat
  distinct : (fields.map Field.name).Nodup
  indexed : index = .ofPairs (fields.map Field.name).zipIdx

/-- A name of a record type resolved in its schema: where the field stands, its
name and its type. -/
structure Target where
  index : Nat
  name : String
  type : FieldType
deriving DecidableEq, Repr

namespace Schema

variable {ρ : Type}

/-- Registers a field: it replaces the field of the same name, or comes last. -/
def register (fields : List (Field ρ)) (field : Field ρ) : List (Field ρ) :=
  putBy Field.name field fields

/-- The fields that registrations leave. -/
def registered (registrations : List (Field ρ)) : List (Field ρ) :=
  registrations.foldl register []

theorem nodup_foldl_register (registrations fields : List (Field ρ))
    (h : (fields.map Field.name).Nodup) :
    ((registrations.foldl register fields).map Field.name).Nodup := by
  induction registrations generalizing fields with
  | nil => exact h
  | cons field registrations ih => exact ih _ (nodup_putBy Field.name field h)

/-- However often a name is registered, one field has it. -/
theorem nodup_registered (registrations : List (Field ρ)) :
    ((registered registrations).map Field.name).Nodup :=
  nodup_foldl_register registrations [] List.nodup_nil

/-- The schema with a name and fields that are registered in order. -/
def build (name : String) (registrations : List (Field ρ)) : Schema ρ where
  name := name
  fields := registered registrations
  index := .ofPairs ((registered registrations).map Field.name).zipIdx
  distinct := nodup_registered registrations
  indexed := rfl

def size (s : Schema ρ) : Nat := s.fields.length

def isEmpty (s : Schema ρ) : Bool := s.fields.isEmpty

/-- The names of the fields, in the order of their registration. -/
def fieldNames (s : Schema ρ) : List String := s.fields.map Field.name

/-- Looks up the field with a name. -/
def resolve? (s : Schema ρ) (name : String) : Option Target := do
  let index ← s.index.find? name
  let field ← s.fields[index]?
  return ⟨index, field.name, field.type⟩

def fieldType? (s : Schema ρ) (name : String) : Option FieldType :=
  (s.resolve? name).map Target.type

def read? (s : Schema ρ) (index : Nat) (record : ρ) : Option Value :=
  (s.fields[index]?).map fun f => f.read record

def inspect (s : Schema ρ) : String :=
  Outline.labelled "Schema"
    [("name", Text.quoted s.name),
      ("fields", Outline.listed
        (s.fields.map fun f => Outline.application "" [Text.quoted f.name, f.type.inspect]))]

/-- The index has a name at the place where a field has it. -/
theorem find?_index_iff {s : Schema ρ} {name : String} {i : Nat} :
    s.index.find? name = some i ↔ ∃ f, s.fields[i]? = some f ∧ f.name = name := by
  have hdistinct : (s.fieldNames.zipIdx.reverse.map Prod.fst).Nodup := by
    rw [List.map_reverse, List.zipIdx_map_fst, List.nodup_iff_pairwise_ne, List.pairwise_reverse]
    exact s.distinct.imp fun hne => hne.symm
  rw [s.indexed, Dictionary.find?_ofPairs, Option.map_eq_some_iff]
  constructor
  · rintro ⟨⟨n, i⟩, hfound, rfl⟩
    obtain ⟨hmem, rfl⟩ := (find?_eq_some_iff_of_nodup hdistinct).mp hfound
    have hplace := List.mk_mem_zipIdx_iff_getElem?.mp (List.mem_reverse.mp hmem)
    rw [fieldNames, List.getElem?_map] at hplace
    exact Option.map_eq_some_iff.mp hplace
  · rintro ⟨f, hget, hname⟩
    refine ⟨(name, i), (find?_eq_some_iff_of_nodup hdistinct).mpr ⟨?_, rfl⟩, rfl⟩
    rw [List.mem_reverse, List.mk_mem_zipIdx_iff_getElem?, fieldNames, List.getElem?_map, hget,
      Option.map_some, hname]

/-- A name is resolved to the field that has it, and to its place. -/
theorem resolve?_eq_some_iff {s : Schema ρ} {name : String} {t : Target} :
    s.resolve? name = some t ↔
      ∃ f, s.fields[t.index]? = some f ∧ f.name = name ∧ t.name = name ∧ t.type = f.type := by
  constructor
  · intro h
    obtain ⟨i, hi, h⟩ := Option.bind_eq_some_iff.mp h
    obtain ⟨f, hget, h⟩ := Option.bind_eq_some_iff.mp h
    cases h
    obtain ⟨g, hget', hname⟩ := find?_index_iff.mp hi
    obtain rfl : f = g := Option.some.inj (hget.symm.trans hget')
    exact ⟨f, hget, hname, hname, rfl⟩
  · rintro ⟨f, hget, hname, htname, htype⟩
    obtain ⟨index, tname, type⟩ := t
    cases htname
    cases htype
    have hindex : s.index.find? tname = some index := find?_index_iff.mpr ⟨f, hget, hname⟩
    rw [resolve?, hindex, Option.bind_eq_bind, Option.bind_some, hget, Option.bind_eq_bind,
      Option.bind_some, hname]
    rfl

/-- The names that are resolved are those of the fields. -/
theorem isSome_resolve?_iff {s : Schema ρ} {name : String} :
    (s.resolve? name).isSome ↔ name ∈ s.fieldNames := by
  rw [Option.isSome_iff_exists, fieldNames, List.mem_map]
  constructor
  · rintro ⟨t, ht⟩
    obtain ⟨f, hget, hname, -⟩ := resolve?_eq_some_iff.mp ht
    exact ⟨f, List.mem_of_getElem? hget, hname⟩
  · rintro ⟨f, hmem, rfl⟩
    obtain ⟨i, hi⟩ := List.getElem?_of_mem hmem
    exact ⟨⟨i, f.name, f.type⟩, resolve?_eq_some_iff.mpr ⟨f, hi, rfl, rfl, rfl⟩⟩

end Schema
end FieldRules
