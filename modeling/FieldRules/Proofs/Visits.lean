import FieldRules.Proofs.Faults

/-!
# Which conditions a compilation visits

A compilation notes every clause whose field it has found, and ends at the first clause with a
fault.  So the clauses noted are those before the first one with a fault, in the order of their
positions, and this one too, unless the fault is that its field is not found.

**Results.**
* `Condition.notes_compileAll`: what is noted are the clauses visited.
* `Condition.visited_of_accepted`, `Condition.visited_of_refused`: which these are.
-/

namespace FieldRules

/-- The notes of a sequence, if its second part always notes the same. -/
theorem Noted.notes_bind_of {ν ε α β : Type} {x : Noted ν ε α} {f : α → Noted ν ε β}
    {notes : List ν} (hf : ∀ a, (f a).notes = notes) :
    (x >>= f).notes = x.notes ++ if refusal? x.outcome = none then notes else [] := by
  rw [notes_bind]
  cases x.outcome with
  | ok a => simp [hf a]
  | error e => simp

section Visiting

variable {ρ : Type} (schema : Schema ρ) (formats : List String)

/-- Whether the name of a clause is that of a field. -/
def Clause.isNamed (c : Clause) : Bool :=
  c.property ≠ "" && (schema.field? c.property).isSome

/-- The note on a clause at a position. -/
def Visit.on (x : Position × Clause) : Visit := ⟨x.1, x.2.property, x.2.operator⟩

/-- Of some clauses, those that are visited: all up to the first that has a fault, and that
one too if its field is known. -/
def Condition.visited : List (Position × Clause) → List (Position × Clause)
  | [] => []
  | x :: xs =>
      if x.2.faults schema formats = [] then x :: visited xs
      else if x.2.isNamed schema then [x] else []

variable {schema formats} in
theorem Clause.isNamed_of_faults {c : Clause} (h : c.faults schema formats = []) :
    c.isNamed schema = true := by
  unfold faults at h
  split at h
  next => cases h
  next hname =>
    split at h
    next => cases h
    next f hf => simp [isNamed, hname, hf]

/-- A clause is noted exactly if its field is known. -/
theorem Clause.notes_compileAt (position : Position) (c : Clause) :
    (c.compileAt schema formats position).notes =
      if c.isNamed schema then [Visit.on (position, c)] else [] := by
  unfold compileAt isNamed resolve
  by_cases hname : c.property = ""
  · simp [hname, Fault.at]
  · cases hresolve : schema.resolve? c.property with
    | none =>
        have hfield := Schema.field?_eq_none_of_resolve? hresolve
        simp [hname, hfield, Fault.at]
    | some t =>
        obtain ⟨f, hfield, -⟩ := Schema.field?_of_resolve? hresolve
        obtain ⟨-, -, -, hnamed, -⟩ := Schema.resolve?_eq_some_iff.mp hresolve
        simp [hname, hfield, hnamed, Fault.at, Visit.on]

namespace Condition

theorem visited_append (xs ys : List (Position × Clause)) :
    visited schema formats (xs ++ ys) =
      visited schema formats xs ++
        if xs.findSome? (firstFault? schema formats) = none then visited schema formats ys
        else [] := by
  induction xs with
  | nil => simp [visited]
  | cons x xs ih =>
      have hfirst := Predicate.firstFault?_eq_none_iff (p := x.1) (c := x.2) schema formats
      rw [List.cons_append, visited, visited, ih, List.findSome?_cons]
      by_cases hx : x.2.faults schema formats = []
      · rw [if_pos hx, if_pos hx, hfirst.mpr hx, List.cons_append]
      · rw [if_neg hx, if_neg hx]
        cases hfault : firstFault? schema formats x with
        | none => exact absurd (hfirst.mp hfault) hx
        | some e => simp

theorem visited_singleton (x : Position × Clause) :
    visited schema formats [x] = if x.2.isNamed schema then [x] else [] := by
  rw [visited, visited]
  by_cases hx : x.2.faults schema formats = []
  · rw [if_pos hx, if_pos (Clause.isNamed_of_faults hx)]
  · rw [if_neg hx]

mutual

/-- Compiling a condition makes a note on every clause that is visited. -/
theorem notes_compile (position : Position) : ∀ c : Condition,
    (compile schema formats position c).notes =
      (visited schema formats (clauses position c)).map Visit.on
  | ⟨clause, nested⟩ => by
      have hsplit : clauses position ⟨clause, nested⟩ =
          [(position, clause)] ++ clausesNested position 0 nested := by rw [clauses]; rfl
      rw [compile, Noted.notes_bind_of fun own => notes_compileNested position 0 own nested,
        Clause.notes_compileAt, refusal?_compileAt, hsplit, visited_append, visited_singleton,
        List.findSome?_singleton]
      cases clause.isNamed schema <;> cases firstFault? schema formats (position, clause) <;> simp

/-- Compiling nested conditions makes a note on every clause that is visited. -/
theorem notes_compileNested (position : Position) (place : Nat) (e : Expr) :
    ∀ cs : List Condition,
      (compileNested schema formats position place e cs).notes =
        (visited schema formats (clausesNested position place cs)).map Visit.on
  | [] => by rw [compileNested, clausesNested, visited, Noted.notes_pure, List.map_nil]
  | c :: cs => by
      rw [compileNested,
        Noted.notes_bind_of fun next => notes_compileNested position (place + 1) (.and e next) cs,
        notes_compile (position.child place) c, refusal?_compile, clausesNested, visited_append]
      split <;> simp

end

theorem notes_compileRest (index : Nat) (e : Expr) (cs : List Condition) :
    (compileRest schema formats index e cs).notes =
      (visited schema formats (clausesFrom index cs)).map Visit.on := by
  induction cs generalizing index e with
  | nil => rfl
  | cons c cs ih =>
      rw [compileRest, Noted.notes_bind_of fun next => ih (index + 1) _, notes_compile,
        refusal?_compile, clausesFrom, visited_append]
      split <;> simp

/-- What is noted when a list is compiled are the clauses visited. -/
theorem notes_compileAll (cs : List Condition) :
    (compileAll schema formats cs).notes =
      (visited schema formats (clausesAll cs)).map Visit.on := by
  cases cs with
  | nil => rfl
  | cons c cs =>
      rw [compileAll, Noted.notes_bind_of fun first => notes_compileRest schema formats 1 first cs,
        notes_compile, refusal?_compile, clausesAll, clausesFrom, visited_append]
      split <;> simp

variable {schema formats}

/-- Clauses without faults are all visited. -/
theorem visited_of_accepted {xs : List (Position × Clause)}
    (h : ∀ x ∈ xs, x.2.faults schema formats = []) : visited schema formats xs = xs := by
  induction xs with
  | nil => rfl
  | cons x xs ih =>
      rw [visited, if_pos (h x List.mem_cons_self), ih fun y hy => h y (List.mem_cons_of_mem x hy)]

/-- The clause that is refused is the last one visited, if its field is known. -/
theorem visited_of_refused {before after : List (Position × Clause)} {x : Position × Clause}
    (hbefore : ∀ y ∈ before, y.2.faults schema formats = [])
    (hx : x.2.faults schema formats ≠ []) :
    visited schema formats (before ++ x :: after) =
      before ++ if x.2.isNamed schema then [x] else [] := by
  have hnone : before.findSome? (firstFault? schema formats) = none :=
    List.findSome?_eq_none_iff.mpr fun y hy =>
      (Predicate.firstFault?_eq_none_iff schema formats).mpr (hbefore y hy)
  rw [visited_append, if_pos hnone, visited_of_accepted hbefore, visited, if_neg hx]

end Condition

/-- What is noted when a predicate is compiled are the clauses visited. -/
theorem Predicate.notes_compiling (cs : List Condition) :
    (compiling schema formats cs).notes =
      (Condition.visited schema formats (Condition.clausesAll cs)).map Visit.on := by
  have hnothing : ∀ e : Expr, (pure ⟨schema, e⟩ : Compiling (Predicate ρ)).notes = [] :=
    fun _ => rfl
  rw [compiling, Noted.notes_bind_of hnothing, Condition.notes_compileAll, ite_self,
    List.append_nil]

end Visiting

end FieldRules
