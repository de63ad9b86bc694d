import FieldRules.Compiler.Records

/-!
# The cache of predicates

What has been compiled, by record type, schema and digest.  An entry holds a
predicate on records of the type in its key.  The first predicate stored under a key
stays until the cache is cleared.

**Results.**
* `find?_insert_self`, `find?_insert_of_ne`: a new entry answers for its own key only.
-/

namespace FieldRules

/-- What identifies a compiled list of conditions. -/
structure CacheKey (κ δ : Type) where
  record : κ
  schema : SchemaKey
  digest : δ
deriving DecidableEq, Repr

/-- A predicate under its key. -/
structure CacheEntry (κ δ : Type) [RecordTypes κ] where
  key : CacheKey κ δ
  object : Shared (RecordTypes.Record key.record)

/-- The counters of a cache. -/
structure CacheStats where
  hits : UInt64 := 0
  misses : UInt64 := 0
  entries : Nat := 0
deriving DecidableEq, Repr, Inhabited

def CacheStats.inspect (s : CacheStats) : String :=
  Outline.labelled "CacheStats"
    [("hits", toString s.hits.toNat), ("misses", toString s.misses.toNat),
      ("entries", toString s.entries)]

/-- A cache of predicates, which counts the look-ups that found a predicate and
those that did not. -/
structure Cache (κ δ : Type) [RecordTypes κ] where
  entries : List (CacheEntry κ δ) := []
  hits : UInt64 := 0
  misses : UInt64 := 0

namespace Cache

variable {κ δ : Type} [RecordTypes κ]

def empty : Cache κ δ := {}

def size (c : Cache κ δ) : Nat := c.entries.length

def isEmpty (c : Cache κ δ) : Bool := c.entries.isEmpty

def stats (c : Cache κ δ) : CacheStats :=
  ⟨c.hits, c.misses, c.size⟩

def inspect (c : Cache κ δ) : String :=
  Outline.labelled "PredicateCache" [("stats", c.stats.inspect)]

/-- Takes every entry out and starts counting anew. -/
def clear (_ : Cache κ δ) : Cache κ δ := empty

variable [DecidableEq κ] [DecidableEq δ]

/-- The predicate under a key. -/
def find? (key : CacheKey κ δ) :
    List (CacheEntry κ δ) → Option (Shared (RecordTypes.Record key.record))
  | [] => none
  | e :: es => if h : e.key = key then some (h ▸ e.object) else find? key es

/-- Looks up the predicate under a key, and counts. -/
def get (c : Cache κ δ) (key : CacheKey κ δ) :
    Option (Shared (RecordTypes.Record key.record)) × Cache κ δ :=
  match find? key c.entries with
  | some p => (some p, { c with hits := c.hits + 1 })
  | none => (none, { c with misses := c.misses + 1 })

/-- Stores a predicate under a key, unless there is one; what is stored then is
returned. -/
def getOrInsert (c : Cache κ δ) (key : CacheKey κ δ)
    (object : Shared (RecordTypes.Record key.record)) :
    Shared (RecordTypes.Record key.record) × Cache κ δ :=
  match find? key c.entries with
  | some p => (p, c)
  | none => (object, { c with entries := ⟨key, object⟩ :: c.entries })

@[simp] theorem find?_insert_self (key : CacheKey κ δ)
    (object : Shared (RecordTypes.Record key.record)) (es : List (CacheEntry κ δ)) :
    find? key (⟨key, object⟩ :: es) = some object := by
  rw [find?, dif_pos rfl]

theorem find?_insert_of_ne {key : CacheKey κ δ} {e : CacheEntry κ δ} (h : e.key ≠ key)
    (es : List (CacheEntry κ δ)) : find? key (e :: es) = find? key es := by
  rw [find?, dif_neg h]

end Cache
end FieldRules
