import FieldRules.Compiler.Session

/-!
# How calls go

A call of a compiler goes one of three ways: the predicate is there already, or the list
is compiled and the new predicate is stored, or the list cannot be compiled and nothing
is stored.  A step of a session is such a call, or it takes the predicates of a compiler
away, or there is no compiler for it.

The relations here say everything that a call or a step does, so that what holds along
sessions can be shown case by case, without opening the functions again.

**Results.**
* `Cache.mem_of_find?`: what is found under a key is an entry.
* `Compiler.serve_serves`: every call goes one of the three ways.
* `Session.perform_steps`: every step is a call, a clearing or idle.
-/

namespace FieldRules

/-- What a call is about: a list of conditions on a record type, and the schema that it
is compiled against with its key, which is the record type's own schema if the key says
so. -/
structure Job (κ : Type) [RecordTypes κ] where
  record : κ
  schema : Schema (RecordTypes.Record record)
  source : SchemaKey
  own : source = .own → schema = RecordTypes.schema record
  conditions : List Condition

section Requests

variable {κ : Type} [RecordTypes κ]

/-- What a job compiles to without any compiler. -/
def Job.afresh (j : Job κ) (formats : List String) :
    Except CompileError (Predicate (RecordTypes.Record j.record)) :=
  Predicate.compile j.schema formats j.conditions

/-- What a request asks to compile. -/
def Request.job? : Request κ → Option (Job κ)
  | .compile _ record conditions =>
      some ⟨record, RecordTypes.schema record, .own, fun _ => rfl, conditions⟩
  | .compileWith _ record handle conditions =>
      some ⟨record, handle.schema, handle.key, nofun, conditions⟩
  | .clear _ => none

/-- A job whose schema is known by an address is that of a supplied schema. -/
theorem Request.eq_compileWith {r : Request κ} {j : Job κ} (hj : r.job? = some j)
    {name : String} {address : Nat} (hsource : j.source = .supplied name address) :
    ∃ index cs, r = .compileWith index j.record ⟨address, j.schema⟩ cs := by
  cases r with
  | compile index record conditions =>
      cases hj
      cases hsource
  | compileWith index record handle conditions =>
      cases hj
      obtain ⟨-, rfl⟩ := SchemaKey.supplied.inj hsource
      exact ⟨index, conditions, rfl⟩
  | clear index => cases hj

/-- The lists of conditions in requests. -/
def Request.lists (rs : List (Request κ)) : List (List Condition) :=
  (rs.filterMap Request.job?).map Job.conditions

theorem Request.mem_lists {r : Request κ} {rs : List (Request κ)} (hr : r ∈ rs) {j : Job κ}
    (hj : r.job? = some j) : j.conditions ∈ Request.lists rs :=
  List.mem_map_of_mem (List.mem_filterMap.mpr ⟨r, hr, hj⟩)

end Requests

variable {κ δ : Type} [RecordTypes κ] [DecidableEq κ] [DecidableEq δ]

theorem Cache.mem_of_find? {key : CacheKey κ δ} {es : List (CacheEntry κ δ)}
    {p : Shared (RecordTypes.Record key.record)} (h : find? key es = some p) :
    ⟨key, p⟩ ∈ es := by
  induction es with
  | nil => cases h
  | cons e es ih =>
      rw [find?] at h
      split at h
      next hkey =>
        subst hkey
        cases h
        exact List.mem_cons_self
      next => exact List.mem_cons_of_mem e (ih h)

variable [Digest δ]

namespace Compiler

/-- What a compiler knows a job by. -/
def keyOf (c : Compiler κ δ) (j : Job κ) : CacheKey κ δ :=
  c.key j.record j.source j.conditions

/-- The call of a compiler for a job. -/
def serve (c : Compiler κ δ) (serial : Nat) (j : Job κ) : Call κ δ j.record :=
  c.findOrCompile serial j.record j.schema j.source j.conditions

/-- What every call says first. -/
def opening (j : Job κ) : LogEntry δ :=
  .call j.schema.name j.conditions.length

/-- What a call says that compiles a list, but for the end. -/
def telling (c : Compiler κ δ) (j : Job κ) : List (LogEntry δ) :=
  opening j :: .miss (c.keyOf j).digest ::
    (Predicate.compiling j.schema c.options.dateFormats j.conditions).notes.map .visit

/-- The ways in which a call may go. -/
inductive Serves (c : Compiler κ δ) (serial : Nat) (j : Job κ) : Call κ δ j.record → Prop
  | found {p : Shared (RecordTypes.Record j.record)}
      (stored : Cache.find? (c.keyOf j) c.cache.entries = some p) :
      Serves c serial j
        ⟨.ok p, [opening j, .hit (c.keyOf j).digest],
          { c with cache := { c.cache with hits := c.cache.hits + 1 } }⟩
  | made {p : Predicate (RecordTypes.Record j.record)}
      (missing : Cache.find? (c.keyOf j) c.cache.entries = none)
      (compiled : j.afresh c.options.dateFormats = .ok p) :
      Serves c serial j
        ⟨.ok ⟨serial, j.source, p⟩, c.telling j,
          { c with
            cache :=
              { c.cache with
                entries := ⟨c.keyOf j, ⟨serial, j.source, p⟩⟩ :: c.cache.entries
                misses := c.cache.misses + 1 } }⟩
  | failed {e : CompileError}
      (missing : Cache.find? (c.keyOf j) c.cache.entries = none)
      (refused : j.afresh c.options.dateFormats = .error e) :
      Serves c serial j
        ⟨.error e, c.telling j ++ [.failed e],
          { c with cache := { c.cache with misses := c.cache.misses + 1 } }⟩

/-- Every call goes one of the three ways. -/
theorem serve_serves (c : Compiler κ δ) (serial : Nat) (j : Job κ) :
    c.Serves serial j (c.serve serial j) := by
  unfold serve findOrCompile
  dsimp only
  cases hfind : Cache.find? (c.key j.record j.source j.conditions) c.cache.entries with
  | some p =>
      have hget : c.cache.get (c.key j.record j.source j.conditions) =
          (some p, { c.cache with hits := c.cache.hits + 1 }) := by
        rw [Cache.get, hfind]
      rw [hget]
      exact .found hfind
  | none =>
      have hget : c.cache.get (c.key j.record j.source j.conditions) =
          (none, { c.cache with misses := c.cache.misses + 1 }) := by
        rw [Cache.get, hfind]
      rw [hget]
      dsimp only
      cases hout : (Predicate.compiling j.schema c.options.dateFormats j.conditions).outcome with
      | ok p =>
          unfold Cache.getOrInsert
          dsimp only
          rw [hfind]
          exact .made hfind hout
      | error e => exact .failed hfind hout

theorem Serves.options_eq {c : Compiler κ δ} {serial : Nat} {j : Job κ}
    {call : Call κ δ j.record} (h : c.Serves serial j call) :
    call.compiler.options = c.options := by
  cases h <;> rfl

end Compiler

namespace Session

section Recording

omit [DecidableEq κ] [DecidableEq δ] [Digest δ]
variable {s : Session κ δ} {index : Nat} {c d : Compiler κ δ} {a : Response κ δ}

/-- After a step, a compiler is the one that was asked or as it was before. -/
theorem mem_record (h : d ∈ (s.record index c a).compilers) : d ∈ s.compilers ∨ d = c :=
  List.mem_or_eq_of_mem_set h

/-- Options stay as they are when a compiler is put in its place again. -/
theorem options_record (hc : s.compilers[index]? = some c) (hd : d.options = c.options) :
    (s.record index d a).compilers.map Compiler.options =
      s.compilers.map Compiler.options := by
  have hoptions : (s.compilers.map Compiler.options)[index]? = some c.options := by
    rw [List.getElem?_map, hc, Option.map_some]
  obtain ⟨_, hget⟩ := List.getElem?_eq_some_iff.mp hoptions
  rw [record, List.map_set, hd, ← hget, List.set_getElem_self]

end Recording

/-- What a step of a session may be. -/
inductive Steps (s : Session κ δ) (r : Request κ) : Response κ δ × Session κ δ → Prop
  | idle (absent : s.compilers[r.compiler]? = none) :
      Steps s r (.noCompiler, s.pass)
  | cleared {c : Compiler κ δ} (present : s.compilers[r.compiler]? = some c)
      (clearing : r.job? = none) :
      Steps s r (.cleared, s.record r.compiler c.clear .cleared)
  | served {c : Compiler κ δ} {j : Job κ} {call : Call κ δ j.record}
      (present : s.compilers[r.compiler]? = some c) (asked : r.job? = some j)
      (serves : c.Serves s.returned.length j call) :
      Steps s r (.ofCall call, s.record r.compiler call.compiler (.ofCall call))

/-- Every step is a call, a clearing or idle. -/
theorem perform_steps (s : Session κ δ) (r : Request κ) : s.Steps r (s.perform r) := by
  unfold perform
  cases hc : s.compilers[r.compiler]? with
  | none => exact .idle hc
  | some c =>
      cases r with
      | clear compiler => exact .cleared hc rfl
      | compile compiler record conditions =>
          exact .served hc rfl (c.serve_serves s.returned.length _)
      | compileWith compiler record handle conditions =>
          exact .served hc rfl (c.serve_serves s.returned.length _)

end Session
end FieldRules
