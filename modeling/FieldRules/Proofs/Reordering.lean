import FieldRules.Proofs.Acceptance
import FieldRules.Proofs.Counts
import FieldRules.Proofs.Meaning
import Mathlib.Data.List.Perm.Basic

/-!
# Reordering neighbours

A list of conditions is joined from the left, without precedence between the connectors, so that
its order counts.  Neighbours that carry one connector may change places all the same.  The first
condition of a list has a connector too, although it is not looked at: the list is joined as if it
came after something that makes no difference to its connector, truth before `AND` and falsehood
before `OR`.  Seen in this way the first condition is one like the others, and a block of
conditions with one connector may be permuted wherever it stands.

**Results.**
* `Condition.compileAll_foldAll`: a list is joined from such a beginning.
* `Condition.foldAll_perm`: blocks of one connector may be permuted.
* `Predicate.exists_compile_iff_each`: whether a list compiles does not hang on its order.
* `Predicate.compile_block_perm`: a permuted block makes a predicate of the same truth and size.
-/

namespace FieldRules

namespace Condition

section Fold

variable {α : Type} (own : Clause → α) (join : Connector → α → α → α) (start : Connector → α)

/-- Joins what a condition gives to what there is before it. -/
def foldStep (a : α) (c : Condition) : α := join c.clause.connector a (fold own join c)

/-- The connector of the first condition of a list. -/
def firstConnector (cs : List Condition) : Option Connector :=
  cs.head?.map fun c => c.clause.connector

/-- Joins what the conditions of a list give, each by its own connector, from a beginning that
depends on the first connector. -/
def foldAll (cs : List Condition) : α :=
  cs.foldl (foldStep own join) (start ((firstConnector cs).getD .and))

theorem foldRest_eq_foldl (a : α) (cs : List Condition) :
    foldRest own join a cs = cs.foldl (foldStep own join) a := by
  induction cs generalizing a with
  | nil => rfl
  | cons c cs ih => rw [foldRest, ih, List.foldl_cons, foldStep]

variable {own join start}

theorem foldAll_cons (hstart : ∀ k a, join k (start k) a = a) (c : Condition)
    (cs : List Condition) :
    foldAll own join start (c :: cs) = foldRest own join (fold own join c) cs := by
  rw [foldRest_eq_foldl, foldAll, List.foldl_cons]
  exact congrArg (fun a => cs.foldl (foldStep own join) a) (hstart c.clause.connector _)

/-- What a list of conditions is compiled to is related to what it is joined to, if the beginning
makes no difference. -/
theorem compileAll_foldAll {ρ : Type} {schema : Schema ρ} {formats : List String}
    {R : α → Expr → Prop} (hR : Respects schema formats own join R)
    (hstart : ∀ k a, join k (start k) a = a) {cs : List Condition} {e : Expr}
    (h : (compileAll schema formats cs).outcome = .ok e) :
    R (foldAll own join start cs) e := by
  obtain ⟨first, rest, rfl, hfold⟩ := compileAll_fold hR h
  rw [foldAll_cons hstart]
  exact hfold

section Permutation

variable {before block block' after : List Condition} {k : Connector}

/-- A permuted block of one connector has the first connector that it had. -/
theorem firstConnector_perm (hk : ∀ c ∈ block, c.clause.connector = k)
    (hperm : block.Perm block') :
    firstConnector (before ++ block ++ after) = firstConnector (before ++ block' ++ after) := by
  have hfirst : ∀ cs : List Condition, (∀ c ∈ cs, c.clause.connector = k) → cs ≠ [] →
      firstConnector (cs ++ after) = some k := fun cs hcs hne => by
    cases cs with
    | nil => exact absurd rfl hne
    | cons c cs => exact congrArg some (hcs c List.mem_cons_self)
  cases before with
  | cons c cs => rfl
  | nil =>
      by_cases hne : block = []
      · subst hne
        rw [hperm.nil_eq]
      · have hk' : ∀ c ∈ block', c.clause.connector = k := fun c hc => hk c (hperm.mem_iff.mpr hc)
        have hne' : block' ≠ [] := fun h => hne (List.perm_nil.mp (h ▸ hperm))
        exact (hfirst block hk hne).trans (hfirst block' hk' hne').symm

/-- Within a block of one connector the order does not count, if it does not count in what the
connector joins. -/
theorem foldAll_perm (hcomm : ∀ k a x y, join k (join k a x) y = join k (join k a y) x)
    (hk : ∀ c ∈ block, c.clause.connector = k) (hperm : block.Perm block') :
    foldAll own join start (before ++ block ++ after) =
      foldAll own join start (before ++ block' ++ after) := by
  have hblock : ∀ a, block.foldl (foldStep own join) a = block'.foldl (foldStep own join) a :=
    hperm.foldl_eq' fun c hc d hd a => by
      unfold foldStep
      rw [hk c hc, hk d hd, hcomm]
  rw [foldAll, foldAll, firstConnector_perm hk hperm]
  simp only [List.foldl_append, hblock]

end Permutation

end Fold

/-- All clauses of a condition are acceptable, at any depth. -/
def Acceptable {ρ : Type} (schema : Schema ρ) (formats : List String) (c : Condition) : Prop :=
  ∀ path clause, c.along? path = some clause → clause.Acceptable formats schema

end Condition

namespace Connector

/-- What is joined to by a connector without changing anything. -/
def neutral : Connector → Bool
  | .and => true
  | .or => false

theorem apply_neutral (k : Connector) (a : Bool) : k.apply k.neutral a = a := by
  cases k <;> rfl

/-- The operands of one connector can be exchanged. -/
theorem apply_right_comm (k : Connector) (a x y : Bool) :
    k.apply (k.apply a x) y = k.apply (k.apply a y) x := by
  cases k
  · exact Bool.or_right_comm a x y
  · exact Bool.and_right_comm a x y

end Connector

namespace Predicate

variable {ρ : Type} {schema : Schema ρ} {formats : List String}

/-- A list of conditions compiles exactly if it is not empty and each condition in it is
acceptable, wherever it stands. -/
theorem exists_compile_iff_each {cs : List Condition} :
    (∃ p, compile schema formats cs = .ok p) ↔
      cs ≠ [] ∧ ∀ c ∈ cs, c.Acceptable schema formats := by
  rw [exists_compile_iff_forall_clauses]
  refine and_congr_right fun _ => ⟨fun h c hc path clause hclause => ?_, fun h x hx => ?_⟩
  · obtain ⟨i, hi⟩ := List.getElem?_of_mem hc
    have hat : Condition.clauseAt? cs ⟨i, path⟩ = some clause :=
      Option.bind_eq_some_iff.mpr ⟨c, hi, hclause⟩
    exact h _ ((Condition.mem_clausesAll_iff ⟨i, path⟩ clause cs).mpr hat)
  · have hat := (Condition.mem_clausesAll_iff x.1 x.2 cs).mp hx
    obtain ⟨c, hc, hclause⟩ := Option.bind_eq_some_iff.mp hat
    exact h c (List.mem_of_getElem? hc) x.1.path x.2 hclause

/-- What a predicate decides is what its conditions, read one after the other, are joined to. -/
theorem evaluate_eq_foldAll {cs : List Condition} {p : Predicate ρ}
    (h : compile schema formats cs = .ok p) (record : ρ) :
    p.evaluate record = Condition.foldAll (Clause.truth schema formats record) Connector.apply
      Connector.neutral cs := by
  obtain ⟨hschema, hexpr⟩ := compile_eq_ok h
  have htruth := Condition.compileAll_foldAll (Condition.respects_truth schema formats record)
    Connector.apply_neutral hexpr
  rw [← htruth, ← hschema]
  rfl

/-- A predicate makes the comparisons that its conditions ask for. -/
theorem comparisons_eq_foldAll {cs : List Condition} {p : Predicate ρ}
    (h : compile schema formats cs = .ok p) :
    p.comparisons =
      Condition.foldAll Clause.comparisons (fun _ m n => m + n) (fun _ => 0) cs :=
  Condition.compileAll_foldAll (Condition.respects_comparisons schema formats)
    (fun _ => Nat.zero_add) (compile_eq_ok h).2

/-- **Neighbours with one connector commute.**  If a list of conditions compiles, and all
conditions in a block of it carry one connector, then any order of the block makes a list that
compiles too, to a predicate of the same truth on every record and with as many comparisons. -/
theorem compile_block_perm {before block block' after : List Condition} {k : Connector}
    {p : Predicate ρ} (hk : ∀ c ∈ block, c.clause.connector = k) (hperm : block.Perm block')
    (h : compile schema formats (before ++ block ++ after) = .ok p) :
    ∃ q, compile schema formats (before ++ block' ++ after) = .ok q ∧
      (∀ record, q.evaluate record = p.evaluate record) ∧ q.comparisons = p.comparisons := by
  have hlists : (before ++ block ++ after).Perm (before ++ block' ++ after) :=
    (hperm.append_left before).append_right after
  obtain ⟨hne, hacceptable⟩ := exists_compile_iff_each.mp ⟨p, h⟩
  obtain ⟨q, hq⟩ : ∃ q, compile schema formats (before ++ block' ++ after) = .ok q := by
    refine exists_compile_iff_each.mpr ⟨fun hnil => hne ?_, fun c hc => ?_⟩
    · exact List.perm_nil.mp (hnil ▸ hlists)
    · exact hacceptable c (hlists.mem_iff.mpr hc)
  refine ⟨q, hq, fun record => ?_, ?_⟩
  · rw [evaluate_eq_foldAll h, evaluate_eq_foldAll hq,
      Condition.foldAll_perm Connector.apply_right_comm hk hperm]
  · rw [comparisons_eq_foldAll h, comparisons_eq_foldAll hq,
      Condition.foldAll_perm (fun _ => Nat.add_right_comm) hk hperm]

end Predicate

namespace Gauge

/-- Three alternatives, the first of which begins a list. -/
def alternatives : List Condition :=
  [(Condition.on "state" .equals).withValue "Busy", Condition.between "level" "5" "9",
    (Condition.on "state" .isIn).withValues ["Idle", "Busy"]]

def low : Condition := ((Condition.on "level" .lessThan).withValue "3").joinedBy .and

/-- The alternatives may be given in the opposite order, so that another one comes first. -/
theorem compile_alternatives_reverse :
    ∃ p q, Predicate.compile schema [] (alternatives ++ [low]) = .ok p ∧
      Predicate.compile schema [] (alternatives.reverse ++ [low]) = .ok q ∧
      (∀ record, q.evaluate record = p.evaluate record) ∧
      p.comparisons = 6 ∧ q.comparisons = 6 := by
  have hconnector : ∀ c ∈ alternatives, c.clause.connector = .or := by decide
  have hperm : alternatives.Perm alternatives.reverse := (List.reverse_perm _).symm
  obtain ⟨p, hp⟩ : ∃ p, Predicate.compile schema [] ([] ++ alternatives ++ [low]) = .ok p :=
    ⟨_, rfl⟩
  obtain ⟨q, hq, htruth, hcount⟩ := Predicate.compile_block_perm hconnector hperm hp
  have hsize : p.comparisons = 6 := by
    cases hp
    rfl
  exact ⟨p, q, hp, hq, htruth, hsize, hcount.trans hsize⟩

end Gauge

end FieldRules
