import FieldRules.Proofs.Sharing
import FieldRules.Proofs.Visits

/-!
# What a call says

A call of a compiler first says what it is about, and then whether a predicate was found; both
name the digest of the list.  If none was found, the clauses visited by the compilation follow,
and at the end the error, if there is one.  Nothing else is said, and so the log of a call tells
how far it got.

**Results.**
* `Job.afresh_visits`: the clauses that a compilation visits, by its outcome.
* `Compiler.Serves.tells`: what a call says, in any state of the compiler.
* `Session.run_log`: what the calls of a session say.
-/

namespace FieldRules

namespace Response

variable {κ δ : Type} [RecordTypes κ]

/-- What the compiler has said before an answer. -/
def log : Response κ δ → List (LogEntry δ)
  | .compiled _ log | .failed _ log => log
  | .cleared | .noCompiler => []

def error? : Response κ δ → Option CompileError
  | .failed e _ => some e
  | .compiled _ _ | .cleared | .noCompiler => none

end Response

namespace LogEntry

/-- The fields of a message on the digest of a list. -/
def lookupFields (message fingerprint : String) : List (String × String) :=
  [("message", message), ("fingerprint", fingerprint)]

/-- The fields of the message that a clause is translated. -/
def clauseFields (x : Position × Clause) : List (String × String) :=
  [("message", "translating condition"), ("position", x.1.text), ("field", x.2.property),
    ("operator", x.2.operator.name)]

/-- The fields of the message that a compilation has failed. -/
def failureFields (e : CompileError) : List (String × String) :=
  [("message", "compilation failed"), ("error", e.message)]

end LogEntry

section Jobs

variable {κ : Type} [RecordTypes κ]

/-- The clauses of a job that its compilation visits, if it ends with an error or with none:
all of them if there is none, and otherwise those before the first one with a fault, and this
one too exactly if its field is known. -/
inductive Job.Visits (j : Job κ) (formats : List String) :
    Option CompileError → List (Position × Clause) → Prop
  | all (accepted : ∀ x ∈ Condition.clausesAll j.conditions, x.2.faults j.schema formats = []) :
      Visits j formats none (Condition.clausesAll j.conditions)
  | empty (nothing : j.conditions = []) : Visits j formats (some .emptyConditions) []
  | refused {before after : List (Position × Clause)} {position : Position} {clause : Clause}
      {fault : Fault}
      (split : Condition.clausesAll j.conditions = before ++ (position, clause) :: after)
      (accepted : ∀ x ∈ before, x.2.faults j.schema formats = [])
      (first : (clause.faults j.schema formats).head? = some fault) :
      Visits j formats (some (.fault position fault))
        (before ++ if clause.isNamed j.schema then [(position, clause)] else [])

variable {j : Job κ} {formats : List String}

/-- The clauses that are visited are the first ones. -/
theorem Job.Visits.initial {error? : Option CompileError} {visited : List (Position × Clause)}
    (h : j.Visits formats error? visited) : visited <+: Condition.clausesAll j.conditions := by
  cases h with
  | all => exact List.prefix_rfl
  | empty => exact List.nil_prefix
  | @refused before after position clause fault split =>
      rw [split]
      refine (List.prefix_append_right_inj before).mpr ?_
      split
      · exact ⟨after, rfl⟩
      · exact List.nil_prefix

/-- The clauses that a compilation visits, by its outcome. -/
theorem Job.afresh_visits (j : Job κ) (formats : List String) :
    j.Visits formats (refusal? (j.afresh formats))
      (Condition.visited j.schema formats (Condition.clausesAll j.conditions)) := by
  rw [afresh, Predicate.refusal?_compile]
  cases hcs : j.conditions with
  | nil => exact .empty hcs
  | cons first rest =>
      rw [Condition.refusal?_compileAll, ← hcs]
      cases hfault : (Condition.clausesAll j.conditions).findSome?
          (Condition.firstFault? j.schema formats) with
      | none =>
          have haccepted : ∀ x ∈ Condition.clausesAll j.conditions,
              x.2.faults j.schema formats = [] := fun x hx =>
            (Predicate.firstFault?_eq_none_iff j.schema formats).mp
              (List.findSome?_eq_none_iff.mp hfault x hx)
          rw [Condition.visited_of_accepted haccepted]
          exact .all haccepted
      | some e =>
          obtain ⟨before, ⟨position, clause⟩, after, hsplit, hfirst, hbefore⟩ :=
            List.findSome?_eq_some_iff.mp hfault
          obtain ⟨fault, hhead, rfl⟩ := Option.map_eq_some_iff.mp hfirst
          have haccepted : ∀ x ∈ before, x.2.faults j.schema formats = [] := fun x hx =>
            (Predicate.firstFault?_eq_none_iff j.schema formats).mp (hbefore x hx)
          have hfaulty : clause.faults j.schema formats ≠ [] := by
            intro hnil
            rw [hnil] at hhead
            cases hhead
          rw [hsplit, Condition.visited_of_refused haccepted hfaulty]
          exact .refused hsplit haccepted hhead

end Jobs

section Calls

variable {κ δ : Type} [RecordTypes κ] [DecidableEq κ] [DecidableEq δ] [Digest δ]

/-- What an answer to a job says, as texts: what the call is about, then whether a predicate was
found for the digest of the list, then the clauses visited, none if one was found, and at last
the error. -/
def Job.Tells (j : Job κ) (o : Options) (visited : List (Position × Clause))
    (a : Response κ δ) : Prop :=
  ∃ lookup : List (String × String),
    a.log.map LogEntry.fields =
      [("record", j.schema.name), ("conditions", toString j.conditions.length)] :: lookup ::
        visited.map LogEntry.clauseFields ++ a.error?.toList.map LogEntry.failureFields ∧
    (lookup = LogEntry.lookupFields "predicate cache hit"
          (Digest.text (Condition.digest δ o.keyMode j.conditions)) ∧
        a.error? = none ∧ visited = [] ∨
      lookup = LogEntry.lookupFields "predicate cache miss, compiling"
          (Digest.text (Condition.digest δ o.keyMode j.conditions)) ∧
        j.Visits o.dateFormats a.error? visited)

namespace Compiler

variable {c : Compiler κ δ} {j : Job κ} {serial : Nat} {call : Call κ δ j.record}

omit [DecidableEq κ] [DecidableEq δ] in
theorem fields_telling (c : Compiler κ δ) (j : Job κ) :
    (c.telling j).map LogEntry.fields =
      [("record", j.schema.name), ("conditions", toString j.conditions.length)] ::
        LogEntry.lookupFields "predicate cache miss, compiling"
          (Digest.text (Condition.digest δ c.options.keyMode j.conditions)) ::
        (Condition.visited j.schema c.options.dateFormats
          (Condition.clausesAll j.conditions)).map LogEntry.clauseFields := by
  rw [telling, Predicate.notes_compiling, List.map_map, List.map_cons, List.map_cons, List.map_map]
  rfl

/-- What a call says, in any state of the compiler. -/
theorem Serves.tells (h : c.Serves serial j call) :
    ∃ visited, j.Tells c.options visited (.ofCall call) := by
  have hvisits := j.afresh_visits c.options.dateFormats
  cases h with
  | found stored => exact ⟨[], _, rfl, .inl ⟨rfl, rfl, rfl⟩⟩
  | made missing compiled =>
      rw [compiled] at hvisits
      refine ⟨_, _, ?_, .inr ⟨rfl, hvisits⟩⟩
      exact (fields_telling c j).trans (List.append_nil _).symm
  | failed missing refused =>
      rw [refused] at hvisits
      refine ⟨_, _, ?_, .inr ⟨rfl, hvisits⟩⟩
      refine (List.map_append ..).trans ?_
      rw [fields_telling]
      rfl

end Compiler

namespace Session

variable {s : Session κ δ} {r : Request κ} {x : Response κ δ × Session κ δ} {j : Job κ}
  {o : Options} {a : Response κ δ} {options : List Options} {requests : List (Request κ)}
  {n : Nat}

/-- A step that asks for a job says in its answer what it has done. -/
theorem Steps.tells (h : s.Steps r x) (hj : r.job? = some j)
    (ho : (s.compilers.map Compiler.options)[r.compiler]? = some o) :
    ∃ visited, j.Tells o visited x.1 := by
  cases h with
  | idle absent =>
      rw [List.getElem?_map, absent] at ho
      cases ho
  | cleared _ clearing =>
      rw [hj] at clearing
      cases clearing
  | @served c i call present asked serves =>
      obtain rfl : j = i := Option.some.inj (hj.symm.trans asked)
      rw [List.getElem?_map, present] at ho
      cases ho
      exact serves.tells

/-- **What the calls of a session say.**  Whatever has been asked before, a call says exactly
once whether a predicate was found for the digest of its list.  If so, no clause is visited; if
not, all clauses are, or those up to the first fault.  They come in the order of their positions,
each with the text of the position that leads to it, and no text twice.  An error is said last,
and only if it is returned. -/
theorem run_log (hstep : ((start options : Session κ δ).trace requests)[n]? = some (r, a))
    (hj : r.job? = some j) (ho : options[r.compiler]? = some o) :
    ∃ visited, j.Tells o visited a ∧
      (∀ x ∈ visited, Condition.clauseAt? j.conditions x.1 = some x.2) ∧
      visited.Pairwise (fun x y => x.1.Before y.1) ∧
      (visited.map fun x => x.1.text).Nodup := by
  obtain ⟨-, rfl⟩ := trace_step hstep
  have hsteps := perform_steps ((start options : Session κ δ).run (requests.take n)).2 r
  obtain ⟨visited, htells⟩ := hsteps.tells hj (by rwa [run_options])
  have hinitial : visited <+: Condition.clausesAll j.conditions := by
    obtain ⟨_, -, ⟨-, -, rfl⟩ | ⟨-, hvisits⟩⟩ := htells
    · exact List.nil_prefix
    · exact hvisits.initial
  have hordered := (Condition.pairwise_clausesAll j.conditions).sublist hinitial.sublist
  refine ⟨visited, htells, fun x hx => ?_, hordered, ?_⟩
  · exact (Condition.mem_clausesAll_iff x.1 x.2 _).mp (hinitial.subset hx)
  · rw [List.nodup_iff_pairwise_ne, List.pairwise_map]
    refine hordered.imp fun {x y} hxy htext => ?_
    rw [Position.text_injective htext] at hxy
    exact hxy.asymm hxy

end Session

end Calls

namespace Device

/-- Conditions on the level of a dial, of which a nested one lacks its operand. -/
def halfway : List Condition :=
  [((Condition.on "level" .equals).withValue "1").withNested (Condition.on "level" .greaterThan),
    (Condition.on "level" .lessThan).withValue "3"]

def dialJob (conditions : List Condition) : Job Device :=
  ⟨dial, RecordTypes.schema dial, .own, fun _ => rfl, conditions⟩

/-- The condition that lacks its operand is visited, and the one behind it is not. -/
theorem log_halfway :
    ∃ (a : Response Device Blake3.Hash) (visited : List (Position × Clause)),
      ((Session.start [{}] : Session Device Blake3.Hash).trace
        [.compile 0 .dial low, .compile 0 .dial halfway])[1]? = some (.compile 0 .dial halfway, a) ∧
      (dialJob halfway).Tells {} visited a ∧
      (visited.map fun x => x.1.text) = ["[0]", "[0].additional[0]"] := by
  have hasked : ([.compile 0 .dial low, .compile 0 .dial halfway] : List (Request Device))[1]? =
      some (.compile 0 .dial halfway) := rfl
  obtain ⟨a, ha⟩ :=
    Session.exists_trace (s := (Session.start [{}] : Session Device Blake3.Hash)) hasked
  obtain ⟨visited, htells, -⟩ := Session.run_log (j := dialJob halfway) ha rfl rfl
  refine ⟨a, visited, ha, htells, ?_⟩
  obtain ⟨lookup, hlog, hvisits⟩ := htells
  have hcomputed : ((Session.start [{}] : Session Device Blake3.Hash).trace
      [.compile 0 .dial low, .compile 0 .dial halfway])[1]?.map
        (fun x => (x.2.log.length, x.2.error?.isSome)) = some (5, true) := by
    decide +kernel
  rw [ha, Option.map_some, Option.some.injEq, Prod.mk.injEq] at hcomputed
  obtain ⟨e, he⟩ := Option.isSome_iff_exists.mp hcomputed.2
  have hlength : visited.length = 2 := by
    have hall := congrArg List.length hlog
    simp [hcomputed.1, he] at hall
    omega
  rw [he] at hvisits
  rcases hvisits with ⟨-, hnone, -⟩ | ⟨-, hvisits⟩
  · cases hnone
  · rw [List.prefix_iff_eq_take.mp hvisits.initial, hlength]
    decide

end Device

end FieldRules
