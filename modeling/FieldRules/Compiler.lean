import FieldRules.Compiler.Cache
import FieldRules.Compiler.Log
import FieldRules.Compiler.Options

/-!
# Compilers

A compiler has options and remembers the predicates it has made.  What it remembers
a list of conditions by depends on its key mode; a list that cannot be compiled is
not remembered.
-/

namespace FieldRules

/-- A compiler for record types `κ` that knows lists by digests `δ`. -/
structure Compiler (κ δ : Type) [RecordTypes κ] where
  options : Options := {}
  cache : Cache κ δ := .empty

/-- What a call of a compiler for a record type gives: its outcome, what it has
said, and the compiler after it. -/
structure Call (κ δ : Type) [RecordTypes κ] (record : κ) where
  outcome : Except CompileError (Shared (RecordTypes.Record record))
  log : List (LogEntry δ)
  compiler : Compiler κ δ

namespace Compiler

variable {κ δ : Type} [RecordTypes κ]

def stats (c : Compiler κ δ) : CacheStats := c.cache.stats

/-- Forgets all predicates and starts counting anew. -/
def clear (c : Compiler κ δ) : Compiler κ δ :=
  { c with cache := c.cache.clear }

def inspect (c : Compiler κ δ) : String :=
  Outline.labelled "RuleCompiler"
    [("options", c.options.inspect), ("cache", c.cache.inspect)]

variable [DecidableEq κ] [DecidableEq δ] [Digest δ]

/-- What a compiler knows a list of conditions by. -/
def key (c : Compiler κ δ) (record : κ) (source : SchemaKey) (conditions : List Condition) :
    CacheKey κ δ :=
  ⟨record, source, Condition.digest δ c.options.keyMode conditions⟩

/-- Finds the predicate of a list of conditions, or else compiles the list.  A new
predicate gets the number of the call. -/
def findOrCompile (c : Compiler κ δ) (serial : Nat) (record : κ)
    (schema : Schema (RecordTypes.Record record)) (source : SchemaKey)
    (conditions : List Condition) : Call κ δ record :=
  let key := c.key record source conditions
  let call := LogEntry.call schema.name conditions.length
  match c.cache.get key with
  | (some p, cache) => ⟨.ok p, [call, .hit key.digest], { c with cache := cache }⟩
  | (none, cache) =>
      let t := Predicate.compiling schema c.options.dateFormats conditions
      let log := call :: .miss key.digest :: t.notes.map .visit
      match t.outcome with
      | .ok p =>
          let (object, cache) := cache.getOrInsert key ⟨serial, source, p⟩
          ⟨.ok object, log, { c with cache := cache }⟩
      | .error e => ⟨.error e, log ++ [.failed e], { c with cache := cache }⟩

/-- Compiles conditions on a record type against its own schema. -/
def compile (c : Compiler κ δ) (serial : Nat) (record : κ) (conditions : List Condition) :
    Call κ δ record :=
  c.findOrCompile serial record (RecordTypes.schema record) .own conditions

/-- Compiles conditions on a record type against a supplied schema. -/
def compileWith (c : Compiler κ δ) (serial : Nat) (record : κ)
    (handle : Handle (RecordTypes.Record record)) (conditions : List Condition) :
    Call κ δ record :=
  c.findOrCompile serial record handle.schema handle.key conditions

end Compiler
end FieldRules
