import FieldRules.Compiler

/-!
# Sessions

Calls of some compilers, one after another.  Every step of a session may return a
predicate; a predicate is known by the number of the step that made it, so that two
steps have returned one object if the numbers are the same.

**Results.**
* `returned_perform`: every step adds its answer to those before it.
-/

namespace FieldRules

/-- A predicate that a step has returned, with the type of its records. -/
structure Returned (κ : Type) [RecordTypes κ] where
  record : κ
  object : Shared (RecordTypes.Record record)

/-- What a step asks of a compiler, which is given by its place. -/
inductive Request (κ : Type) [RecordTypes κ]
  | compile (compiler : Nat) (record : κ) (conditions : List Condition)
  | compileWith (compiler : Nat) (record : κ) (handle : Handle (RecordTypes.Record record))
      (conditions : List Condition)
  | clear (compiler : Nat)

/-- The place of the compiler that a request is for. -/
def Request.compiler {κ : Type} [RecordTypes κ] : Request κ → Nat
  | .compile i _ _ | .compileWith i _ _ _ | .clear i => i

/-- The answer to a request. -/
inductive Response (κ δ : Type) [RecordTypes κ]
  | compiled (returned : Returned κ) (log : List (LogEntry δ))
  | failed (error : CompileError) (log : List (LogEntry δ))
  | cleared
  | noCompiler

namespace Response

variable {κ δ : Type} [RecordTypes κ]

/-- The answer that a call of a compiler gives. -/
def ofCall {record : κ} (call : Call κ δ record) : Response κ δ :=
  match call.outcome with
  | .ok object => .compiled ⟨record, object⟩ call.log
  | .error e => .failed e call.log

/-- The predicate in an answer. -/
def returned? : Response κ δ → Option (Returned κ)
  | .compiled r _ => some r
  | _ => none

end Response

/-- The state of a session: its compilers, and what its steps have returned. -/
structure Session (κ δ : Type) [RecordTypes κ] where
  compilers : List (Compiler κ δ)
  returned : List (Option (Returned κ)) := []

namespace Session

variable {κ δ : Type} [RecordTypes κ]

/-- A session of compilers with some options. -/
def start (options : List Options) : Session κ δ :=
  { compilers := options.map fun o => { options := o } }

/-- The predicate that a step has returned. -/
def returned? (s : Session κ δ) (step : Nat) : Option (Returned κ) :=
  (s.returned[step]?).join

/-- A step that returns no predicate. -/
def pass (s : Session κ δ) : Session κ δ :=
  { s with returned := s.returned ++ [none] }

/-- Puts a compiler in its place again, and keeps what a step has returned. -/
def record (s : Session κ δ) (index : Nat) (c : Compiler κ δ) (r : Response κ δ) :
    Session κ δ :=
  ⟨s.compilers.set index c, s.returned ++ [r.returned?]⟩

variable [DecidableEq κ] [DecidableEq δ] [Digest δ]

/-- A request to a compiler, in the step with a number. -/
def ask (c : Compiler κ δ) (serial : Nat) : Request κ → Response κ δ × Compiler κ δ
  | .compile _ record conditions =>
      let call := c.compile serial record conditions
      (.ofCall call, call.compiler)
  | .compileWith _ record handle conditions =>
      let call := c.compileWith serial record handle conditions
      (.ofCall call, call.compiler)
  | .clear _ => (.cleared, c.clear)

/-- Answers a request. -/
def perform (s : Session κ δ) (r : Request κ) : Response κ δ × Session κ δ :=
  match s.compilers[r.compiler]? with
  | some c =>
      let (answer, c) := ask c s.returned.length r
      (answer, s.record r.compiler c answer)
  | none => (.noCompiler, s.pass)

/-- Answers requests one after another. -/
def run (s : Session κ δ) : List (Request κ) → List (Response κ δ) × Session κ δ
  | [] => ([], s)
  | r :: rs =>
      let (answer, s) := s.perform r
      let (answers, s) := s.run rs
      (answer :: answers, s)

/-- Every step adds its answer to those before it. -/
theorem returned_perform (s : Session κ δ) (r : Request κ) :
    (s.perform r).2.returned = s.returned ++ [(s.perform r).1.returned?] := by
  unfold perform
  split <;> rfl

end Session
end FieldRules
