import FieldRules.Proofs.Counts
import FieldRules.Proofs.Reads
import Mathlib.Algebra.GroupWithZero.Nat

/-!
# How much an evaluation reads

The size of a predicate can be told from its conditions.  It makes the comparisons that the
clauses ask for, at every depth of nesting and whatever the connectors are, so that their number
is a sum over all clauses.  An evaluation makes one comparison at least, the first one, and passes
over those whose answer does not count any more; each one that it makes reads a field of the
schema.

**Results.**
* `Condition.comparisons_of_compileAll`: the comparisons of an expression, as a sum over clauses.
* `Predicate.length_reads`: an evaluation reads a field for every comparison that it makes.
* `Predicate.comparisons_eq_sum`: the number of comparisons, as a sum over the clauses, and as a
  bound on what is read.
-/

namespace FieldRules

namespace Condition

/-- Comparisons are counted clause by clause. -/
theorem totals_comparisons :
    Totals Clause.comparisons (fun _ m n => m + n)
      fun xs => (xs.map fun x => x.2.comparisons).sum where
  nil := Nat.add_zero
  cons x xs := by rw [List.map_cons, List.sum_cons]
  append xs ys := by rw [List.map_append, List.sum_append]
  assoc := Nat.add_assoc

/-- The comparisons of a condition are those that the clauses in it ask for. -/
theorem fold_comparisons (position : Position) (c : Condition) :
    fold Clause.comparisons (fun _ m n => m + n) c =
      ((clauses position c).map fun x => x.2.comparisons).sum :=
  fold_eq_total totals_comparisons position c

/-- The comparisons of the conditions from a place of a list on are added, whatever the
connectors are. -/
theorem foldRest_comparisons (index n : Nat) (cs : List Condition) :
    foldRest Clause.comparisons (fun _ m n => m + n) n cs =
      n + ((clausesFrom index cs).map fun x => x.2.comparisons).sum := by
  induction cs generalizing index n with
  | nil => rfl
  | cons c cs ih =>
      rw [foldRest, ih (index + 1), fold_comparisons ⟨index, []⟩ c, clausesFrom, List.map_append,
        List.sum_append, Nat.add_assoc]

section Lists

variable {ρ : Type} {schema : Schema ρ} {formats : List String}

/-- What a list of conditions is compiled to makes the comparisons that all clauses ask for. -/
theorem comparisons_of_compileAll {cs : List Condition} {e : Expr}
    (h : (compileAll schema formats cs).outcome = .ok e) :
    e.comparisons = ((clausesAll cs).map fun x => x.2.comparisons).sum := by
  obtain ⟨first, rest, rfl, hcount⟩ := compileAll_fold (respects_comparisons schema formats) h
  rw [hcount, foldRest_comparisons 1, fold_comparisons ⟨0, []⟩, clausesAll, clausesFrom,
    List.map_append, List.sum_append]

end Lists

end Condition

namespace Predicate

variable {ρ : Type} {schema : Schema ρ} {formats : List String}
variable {conditions : List Condition} {p : Predicate ρ}

/-- Every comparison that an evaluation makes reads a field of the schema. -/
theorem length_reads (h : compile schema formats conditions = .ok p) (record : ρ) :
    (p.reads record).length = (p.expr.reads (p.value record)).length := by
  obtain ⟨rfl, hexpr⟩ := compile_eq_ok h
  obtain ⟨_, _, -, -, hreads⟩ :=
    Condition.compileAll_fold (Condition.respects_reads p.schema formats record) hexpr
  have hlengths := congrArg List.length hreads
  rw [List.length_map, List.length_map] at hlengths
  rw [reads_of_places record hreads]
  exact hlengths.symm

/-- **The comparison count is exact.**  The comparisons of a predicate are those that the clauses
of its conditions ask for, at every depth of nesting.  An evaluation reads at least one field, and
at most as many as there are comparisons. -/
theorem comparisons_eq_sum (h : compile schema formats conditions = .ok p) :
    p.comparisons = ((Condition.clausesAll conditions).map fun x => x.2.comparisons).sum ∧
      ∀ record, 1 ≤ (p.reads record).length ∧ (p.reads record).length ≤ p.comparisons := by
  refine ⟨Condition.comparisons_of_compileAll (compile_eq_ok h).2, fun record => ?_⟩
  rw [length_reads h record]
  exact ⟨p.expr.length_reads_pos _, p.expr.length_reads_le _⟩

end Predicate

namespace Gauge

/-- Conditions with a candidate that is given twice, bounds that are empty and operands that do
not count, nested two deep. -/
def repetitiveRules : List Condition :=
  [((Condition.on "state" .isIn).withValues ["Busy", "", "Idle", "Busy"]).withNested
      (((((Condition.on "level" .isIn).withValues ["1", "2"]).withMin "-5").withMax "").withNested
        (Condition.between "level" "-9" "9")),
    (((Condition.on "load" .lessThan).withMin "").withValue "NaN").joinedBy .or]

/-- The conditions make seven comparisons.  A gauge that is neither busy nor idle is looked at four
times, three times for its state. -/
theorem comparisons_repetitiveRules :
    ∃ p, Predicate.compile schema [] repetitiveRules = .ok p ∧ p.comparisons = 7 ∧
      (∀ record, 1 ≤ (p.reads record).length ∧ (p.reads record).length ≤ 7) ∧
      p.reads ⟨2, .zero, "Lost"⟩ = ["state", "state", "state", "load"] := by
  obtain ⟨p, hp⟩ : ∃ p, Predicate.compile schema [] repetitiveRules = .ok p := ⟨_, rfl⟩
  obtain ⟨hsum, hreads⟩ := Predicate.comparisons_eq_sum hp
  have hsize : p.comparisons = 7 := hsum.trans (by decide)
  refine ⟨p, hp, hsize, fun record => hsize ▸ hreads record, ?_⟩
  cases hp
  rfl

end Gauge

end FieldRules
