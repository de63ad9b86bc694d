import FieldRules.Proofs.Meaning

/-!
# Which fields an evaluation reads

An evaluation reads a field once for every comparison that it makes, and makes no comparison
whose answer does not count any more.  Here this is told from the conditions alone.  A range
reads its field a second time if the lower bound is met, and a search among candidates goes on
up to the first one that the field equals.  A condition reads for its clause and then for the
conditions nested in it, up to the first that is false.  In a list, the first condition is
reached, and a later one if its connector can still change the truth of the conditions before
it; a condition that is passed over does not keep those after it from being reached.

**Results.**
* `Clause.reads_of_compile`: the test of a clause reads what the clause does.
* `Condition.respects_reads`: so do tests that are joined.
* `Predicate.reads_eq_reached`: a predicate reads what its conditions do, as far as they are
  reached.
-/

namespace FieldRules

section Definitions

variable {ρ : Type} (schema : Schema ρ) (formats : List String) (record : ρ)

/-- The reads of a search among candidates, up to the first one that the field equals. -/
def Schema.searchReads (name : String) : List String → List String
  | [] => []
  | s :: ss =>
      name :: if schema.meets formats record name .equal s then [] else searchReads name ss

/-- The names of the fields that a clause reads, in order. -/
def Clause.reads (c : Clause) : List String :=
  match Operand.given? c.minValue, Operand.given? c.maxValue with
  | some lower, some _ =>
      c.property ::
        if schema.meets formats record c.property .greaterOrEqual lower then [c.property] else []
  | none, none =>
      if c.operator = .isIn then
        schema.searchReads formats record c.property (Operand.givenAll c.values)
      else [c.property]
  | _, _ => [c.property]

namespace Condition

mutual

/-- The names of the fields that a condition reads, in order: those of its clause, and then,
if the clause is true, those of the nested conditions. -/
def reads : Condition → List String
  | ⟨clause, nested⟩ =>
      clause.reads schema formats record ++
        if clause.truth schema formats record then readsNested nested else []

/-- The reads of nested conditions, up to the first one that is false. -/
def readsNested : List Condition → List String
  | [] => []
  | c :: cs => reads c ++ if c.truth schema formats record then readsNested cs else []

end

/-- Whether a condition of a list is reached, given with its place: the first one is, and a
later one if the conditions before it, read alone, are true and it is joined by `AND`, or if
they are false and it is joined by `OR`. -/
def isReached (cs : List Condition) : Condition × Nat → Bool
  | (_, 0) => true
  | (c, place) =>
      match c.clause.connector with
      | .and => truthOf schema formats record (cs.take place)
      | .or => !truthOf schema formats record (cs.take place)

end Condition

/-- The place of the field with a name. -/
def Schema.place? (name : String) : Option Nat := (schema.resolve? name).map Target.index

end Definitions

/-- Whether a connector asks for what comes next, given the truth so far. -/
def Connector.asks : Connector → Bool → Bool
  | .and, sofar => sofar
  | .or, sofar => !sofar

section Tests

variable {ρ : Type} {schema : Schema ρ} {formats : List String} {record : ρ}
variable {name : String} {t : Target}

theorem Schema.place?_of_resolve? (ht : schema.resolve? name = some t) :
    schema.place? name = some t.index := by
  rw [place?, ht, Option.map_some]

/-- Leaves with the values of some texts, joined on to an expression, read like a search among
the texts that begins when the expression does not hold. -/
theorem Clause.reads_foldl_leaf (ht : schema.resolve? name = some t) {ss : List String}
    {vs : List Value}
    (hvs : List.Forall₂ (fun s v => Operand.coerce formats t.type s = .ok (some v)) ss vs)
    (e : Expr) :
    ((vs.foldl (fun e w => .or e (leaf t .equal w)) e).reads
        fun i => schema.read? i record).map some =
      (e.reads fun i => schema.read? i record).map some ++
        if e.holds (fun i => schema.read? i record) then []
        else (schema.searchReads formats record name ss).map schema.place? := by
  induction hvs generalizing e with
  | nil => simp [Schema.searchReads]
  | @cons s v ss vs hs _ ih =>
      rw [List.foldl_cons, ih, Expr.reads_or, Expr.holds_or, holds_leaf ht .equal hs,
        Schema.searchReads, leaf, Expr.reads_compare]
      have hplace := Schema.place?_of_resolve? ht
      cases e.holds (fun i => schema.read? i record) <;>
        cases schema.meets formats record name .equal s <;> simp [hplace]

/-- The test of a clause reads what the clause does. -/
theorem Clause.reads_of_compile {c : Clause} {e : Expr} (h : c.compile schema formats = .ok e) :
    (e.reads fun i => schema.read? i record).map some =
      (c.reads schema formats record).map schema.place? := by
  obtain ⟨t, ht, h⟩ := compile_becomes h
  have hplace := Schema.place?_of_resolve? ht
  unfold reads
  cases h with
  | atLeast lower upper _ =>
      obtain ⟨lo, hlo, -⟩ := given_of_coerce lower
      simp [hlo, not_given_of_coerce upper, leaf, hplace]
  | atMost lower upper _ =>
      obtain ⟨hi, hhi, -⟩ := given_of_coerce upper
      simp [hhi, not_given_of_coerce lower, leaf, hplace]
  | @within lo hi lower upper _ =>
      obtain ⟨s, hs, hv⟩ := given_of_coerce lower
      obtain ⟨s', hs', -⟩ := given_of_coerce upper
      simp only [hs, hs']
      rw [Expr.reads_and, holds_leaf ht .greaterOrEqual hv, leaf, leaf, Expr.reads_compare,
        Expr.reads_compare]
      cases schema.meets formats record c.property .greaterOrEqual s <;> simp [hplace]
  | @single comparison v lower upper operator _ value =>
      have hin : c.operator ≠ .isIn := by
        intro hin
        rw [hin] at operator
        cases operator
      simp [not_given_of_coerce lower, not_given_of_coerce upper, hin, leaf, hplace]
  | @oneOf v vs lower upper operator values =>
      simp only [not_given_of_coerce lower, not_given_of_coerce upper, operator, if_true]
      have hvalues := candidates_eq_ok values
      generalize Operand.givenAll c.values = texts at hvalues ⊢
      cases hvalues with
      | @cons s _ ss _ hs hss =>
          rw [anyOf, reads_foldl_leaf ht hss, holds_leaf ht .equal hs, Schema.searchReads, leaf,
            Expr.reads_compare]
          cases schema.meets formats record c.property .equal s <;> simp [hplace]

end Tests

section Lists

variable {ρ : Type} (schema : Schema ρ) (formats : List String) (record : ρ)

/-- What a clause reads, and its truth. -/
def Clause.readsAndTruth (c : Clause) : List String × Bool :=
  (c.reads schema formats record, c.truth schema formats record)

/-- Joins reads and truths: what comes next is read only if it is asked for. -/
def Connector.joinReads (k : Connector) (a b : List String × Bool) : List String × Bool :=
  (a.1 ++ if k.asks a.2 then b.1 else [], k.apply a.2 b.2)

namespace Condition

/-- Tests read what clauses do, however they are joined. -/
theorem respects_reads :
    Respects schema formats (Clause.readsAndTruth schema formats record) Connector.joinReads
      fun a e => e.holds (fun i => schema.read? i record) = a.2 ∧
        (e.reads fun i => schema.read? i record).map some = a.1.map schema.place? where
  clause _ _ h := ⟨Clause.holds_of_compile h, Clause.reads_of_compile h⟩
  joined k a b x y hx hy := by
    obtain ⟨hxholds, hxreads⟩ := hx
    obtain ⟨hyholds, hyreads⟩ := hy
    cases k with
    | and =>
        refine ⟨by rw [Connector.join, Expr.holds_and, hxholds, hyholds]; rfl, ?_⟩
        rw [Connector.join, Expr.reads_and, List.map_append, hxreads, hxholds]
        cases h : a.2 <;> simp [Connector.joinReads, Connector.asks, h, hyreads]
    | or =>
        refine ⟨by rw [Connector.join, Expr.holds_or, hxholds, hyholds]; rfl, ?_⟩
        rw [Connector.join, Expr.reads_or, List.map_append, hxreads, hxholds]
        cases h : a.2 <;> simp [Connector.joinReads, Connector.asks, h, hyreads]

theorem truth_eq_fold (c : Condition) :
    c.truth schema formats record =
      fold (Clause.truth schema formats record) Connector.apply c := by
  rw [truth, fold_truth schema formats record ⟨0, []⟩]

mutual

/-- Reads and truth of a condition can be folded together. -/
theorem fold_reads : ∀ c : Condition,
    fold (Clause.readsAndTruth schema formats record) Connector.joinReads c =
      (c.reads schema formats record, c.truth schema formats record)
  | ⟨clause, nested⟩ => by
      rw [fold, foldNested_reads nested, reads, truth_eq_fold, fold]
      rfl

/-- Reads and truth of nested conditions can be folded together; once one was false,
nothing is read any more. -/
theorem foldNested_reads : ∀ (cs : List Condition) (a : List String × Bool),
    foldNested (Clause.readsAndTruth schema formats record) Connector.joinReads a cs =
      (a.1 ++ if a.2 then readsNested schema formats record cs else [],
        foldNested (Clause.truth schema formats record) Connector.apply a.2 cs)
  | [], a => by simp [foldNested, readsNested]
  | c :: cs, (read, sofar) => by
      rw [foldNested, foldNested_reads cs, fold_reads c, readsNested, foldNested, truth_eq_fold]
      cases sofar <;> simp [Connector.joinReads, Connector.asks, Connector.apply]

end

theorem truthOf_concat {cs : List Condition} (hcs : cs ≠ []) (c : Condition) :
    truthOf schema formats record (cs ++ [c]) =
      c.clause.connector.apply (truthOf schema formats record cs)
        (c.truth schema formats record) := by
  cases cs with
  | nil => exact absurd rfl hcs
  | cons d ds => simp [truthOf, List.foldl_append]

theorem isReached_of_ne_nil {before : List Condition} (hbefore : before ≠ []) (c : Condition)
    (after : List Condition) :
    isReached schema formats record (before ++ c :: after) (c, before.length) =
      c.clause.connector.asks (truthOf schema formats record before) := by
  cases before with
  | nil => exact absurd rfl hbefore
  | cons d ds =>
      have htake : (d :: ds ++ c :: after).take (d :: ds).length = d :: ds := by simp
      unfold isReached
      rw [List.length_cons] at htake ⊢
      simp only [htake]
      cases c.clause.connector <;> rfl

/-- What the conditions after some others read is what those of them read that are reached. -/
theorem foldRest_reads (before rest : List Condition) (hbefore : before ≠ [])
    (read : List String) :
    (foldRest (Clause.readsAndTruth schema formats record) Connector.joinReads
        (read, truthOf schema formats record before) rest).1 =
      read ++ ((rest.zipIdx before.length).filter
        (isReached schema formats record (before ++ rest))).flatMap
          fun x => x.1.reads schema formats record := by
  induction rest generalizing before read with
  | nil => simp [foldRest]
  | cons c rest ih =>
      have hjoin : Connector.joinReads c.clause.connector
          (read, truthOf schema formats record before)
          (c.reads schema formats record, c.truth schema formats record) =
        (read ++ if c.clause.connector.asks (truthOf schema formats record before) then
            c.reads schema formats record else [],
          truthOf schema formats record (before ++ [c])) := by
        rw [truthOf_concat schema formats record hbefore]
        rfl
      have hrest := ih (before ++ [c]) (by simp)
        (read ++ if c.clause.connector.asks (truthOf schema formats record before) then
            c.reads schema formats record else [])
      rw [List.append_assoc before, List.singleton_append, List.length_append,
        List.length_singleton] at hrest
      rw [foldRest, fold_reads, hjoin, hrest, List.zipIdx_cons, List.filter_cons,
        isReached_of_ne_nil schema formats record hbefore]
      cases c.clause.connector.asks (truthOf schema formats record before) <;> simp

end Condition

variable {schema formats}

theorem Predicate.reads_of_places {p : Predicate ρ} {names : List String}
    (h : (p.expr.reads (p.value record)).map some = names.map p.schema.place?) :
    p.reads record = names := by
  unfold reads
  generalize p.expr.reads (p.value record) = places at h
  induction names generalizing places with
  | nil =>
      rw [List.map_nil, List.map_eq_nil_iff] at h
      rw [h, List.filterMap_nil]
  | cons name names ih =>
      cases places with
      | nil => cases h
      | cons i is =>
          obtain ⟨hi, his⟩ := List.cons.inj h
          obtain ⟨t, ht, rfl⟩ := Option.map_eq_some_iff.mp hi.symm
          obtain ⟨f, hget, hname, -⟩ := Schema.resolve?_eq_some_iff.mp ht
          rw [List.filterMap_cons_some (b := name) (by rw [hget, Option.map_some, hname]), ih is his]

/-- **Which fields an evaluation reads.**  An evaluation of an accepted list of conditions on a
record reads, in the order of the list, what those of its conditions read that are reached, and
each of these reads is one of the field that the name stands for. -/
theorem Predicate.reads_eq_reached {conditions : List Condition} {p : Predicate ρ}
    (h : compile schema formats conditions = .ok p) (record : ρ) :
    p.reads record =
        (conditions.zipIdx.filter
          (Condition.isReached schema formats record conditions)).flatMap
            (fun x => x.1.reads schema formats record) ∧
      (p.expr.reads (p.value record)).map some = (p.reads record).map schema.place? := by
  obtain ⟨hschema, hexpr⟩ := compile_eq_ok h
  subst hschema
  obtain ⟨first, rest, rfl, -, hreads⟩ :=
    Condition.compileAll_fold (Condition.respects_reads p.schema formats record) hexpr
  have hnames := reads_of_places record hreads
  have hrest := Condition.foldRest_reads p.schema formats record [first] rest (by simp)
    (first.reads p.schema formats record)
  have hfold := Condition.fold_reads p.schema formats record first
  refine ⟨?_, by rw [hnames]; exact hreads⟩
  rw [hnames, hfold]
  exact hrest

end Lists

namespace Gauge

/-- For a busy gauge of level two the second condition is passed over and the third one read;
for an idle one of level nine the range fails at its upper bound, the second condition is read
and the third one passed over. -/
theorem reads_rules :
    Predicate.compile schema [] rules = .ok ⟨schema, test⟩ ∧
      (⟨schema, test⟩ : Predicate Gauge).reads ⟨2, .zero, "Busy"⟩ =
        ["state", "level", "level", "level"] ∧
      (⟨schema, test⟩ : Predicate Gauge).reads ⟨9, .zero, "Idle"⟩ =
        ["state", "state", "level", "level", "load"] :=
  ⟨compile_rules [],
    (Predicate.reads_eq_reached (compile_rules []) _).1.trans (by decide),
    (Predicate.reads_eq_reached (compile_rules []) _).1.trans (by decide)⟩

end Gauge

end FieldRules
