import FieldRules.Condition.Position
import FieldRules.Proofs.Numerals

/-!
# Positions as paths

A position leads from the top level of a list of conditions along the nested conditions
to one clause.  Positions are ordered from left to right, with every condition before
those nested in it, and this is the order in which the clauses of a list are counted.
A position can be read off its text, so that an error which tells the text of a position
tells the condition.

**Results.**
* `Condition.mem_clausesAll_iff`: the clauses of a list are those that positions lead to.
* `Condition.pairwise_clausesAll`: they are counted in the order of their positions.
* `Position.text_injective`: positions with one text are the same.
-/

namespace FieldRules

namespace Position

/-- A position comes before another one: it stands further left, or the other one is
nested in it. -/
def Before (p q : Position) : Prop :=
  p.index :: p.path < q.index :: q.path

theorem Before.asymm {p q : Position} (h : p.Before q) : ¬ q.Before p :=
  List.lt_asymm h

section Text

theorem toList_toString (n : Nat) : (toString n).toList = Text.numeral n := by
  simp [Text.numeral, Nat.repr]

/-- The bracket behind a numeral is no digit, so that it ends the numeral. -/
theorem numeral_append_inj {m n : Nat} {x y : List Char}
    (h : Text.numeral m ++ ']' :: x = Text.numeral n ++ ']' :: y) : m = n ∧ x = y := by
  have hends : ∀ z : List Char, Text.EndsRun (']' :: z) := fun _ => Text.endsRun_cons rfl
  obtain ⟨hnumeral, hrest⟩ :=
    Text.digits_append_inj (Text.digits_numeral m) (Text.digits_numeral n) (hends x) (hends y) h
  exact ⟨Text.numeral_inj hnumeral, (List.cons.inj hrest).2⟩

def pathText (path : List Nat) : List Char :=
  path.flatMap fun i => ".additional[".toList ++ (Text.numeral i ++ [']'])

/-- Different paths have different texts. -/
theorem pathText_injective {is js : List Nat} (h : pathText is = pathText js) : is = js := by
  induction is generalizing js with
  | nil =>
      cases js with
      | nil => rfl
      | cons j js => simp [pathText] at h
  | cons i is ih =>
      cases js with
      | nil => simp [pathText] at h
      | cons j js =>
          simp only [pathText, List.flatMap_cons, List.append_assoc, List.cons_append,
            List.nil_append] at h
          obtain ⟨hij, hrest⟩ := numeral_append_inj (List.append_cancel_left h)
          rw [hij, ih hrest]

theorem toList_text (p : Position) :
    p.text.toList = '[' :: (Text.numeral p.index ++ ']' :: pathText p.path) := by
  have hbracket : "]".toList = [']'] := rfl
  simp only [text, pathText, String.toList_append, String.toList_join, List.flatMap_map,
    toList_toString, hbracket, List.append_assoc]
  rfl

/-- Positions with one text are the same. -/
theorem text_injective {p q : Position} (h : p.text = q.text) : p = q := by
  have hchars : p.text.toList = q.text.toList := by rw [h]
  rw [toList_text, toList_text, List.cons.injEq] at hchars
  obtain ⟨hindex, hpath⟩ := numeral_append_inj hchars.2
  cases p with
  | mk i is =>
      cases q with
      | mk j js =>
          rw [Position.mk.injEq]
          exact ⟨hindex, pathText_injective hpath⟩

end Text

end Position

namespace Condition

/-- The clause that a path leads to from a condition. -/
def along? : Condition → List Nat → Option Clause
  | c, [] => some c.clause
  | c, j :: js => (c.nested[j]?).bind fun d => along? d js

/-- The clause that a position leads to in a list of conditions. -/
def clauseAt? (cs : List Condition) (p : Position) : Option Clause :=
  (cs[p.index]?).bind fun c => c.along? p.path

section Members

variable (p : Position) (k : Clause)

mutual

/-- The clauses of a condition are found along the paths into it; the empty path leads
to its own. -/
theorem mem_clauses_iff (position : Position) : ∀ c : Condition,
    (p, k) ∈ clauses position c ↔
      ∃ js, p = ⟨position.index, position.path ++ js⟩ ∧ c.along? js = some k
  | ⟨clause, nested⟩ => by
      rw [clauses, List.mem_cons, mem_clausesNested_iff position 0 nested]
      constructor
      · rintro (heq | ⟨j, js, d, rfl, hd, hk⟩)
        · cases heq
          exact ⟨[], by simp, rfl⟩
        · refine ⟨j :: js, by simp, ?_⟩
          rw [along?, hd]
          exact hk
      · rintro ⟨js, rfl, hk⟩
        cases js with
        | nil =>
            cases hk
            simp
        | cons j js =>
            obtain ⟨d, hd, hk⟩ := Option.bind_eq_some_iff.mp hk
            exact .inr ⟨j, js, d, by simp, hd, hk⟩

/-- The clauses of nested conditions are found along the paths that begin with their
places. -/
theorem mem_clausesNested_iff (position : Position) (place : Nat) :
    ∀ cs : List Condition, (p, k) ∈ clausesNested position place cs ↔
      ∃ j js d, p = ⟨position.index, position.path ++ (place + j) :: js⟩ ∧
        cs[j]? = some d ∧ d.along? js = some k
  | [] => by simp [clausesNested]
  | c :: cs => by
      rw [clausesNested, List.mem_append, mem_clauses_iff (position.child place) c,
        mem_clausesNested_iff position (place + 1) cs]
      constructor
      · rintro (⟨js, rfl, hk⟩ | ⟨j, js, d, rfl, hd, hk⟩)
        · exact ⟨0, js, c, by simp [Position.child], rfl, hk⟩
        · refine ⟨j + 1, js, d, ?_, hd, hk⟩
          rw [Nat.add_assoc, Nat.add_comm 1]
      · rintro ⟨j, js, d, rfl, hd, hk⟩
        cases j with
        | zero =>
            cases hd
            exact .inl ⟨js, by simp [Position.child], hk⟩
        | succ j =>
            refine .inr ⟨j, js, d, ?_, hd, hk⟩
            rw [Nat.add_assoc, Nat.add_comm 1]

end

theorem mem_clausesFrom_iff (index : Nat) (cs : List Condition) :
    (p, k) ∈ clausesFrom index cs ↔
      ∃ j js d, p = ⟨index + j, js⟩ ∧ cs[j]? = some d ∧ d.along? js = some k := by
  induction cs generalizing index with
  | nil => simp [clausesFrom]
  | cons c cs ih =>
      rw [clausesFrom, List.mem_append, mem_clauses_iff, ih]
      constructor
      · rintro (⟨js, rfl, hk⟩ | ⟨j, js, d, rfl, hd, hk⟩)
        · exact ⟨0, js, c, by simp, rfl, hk⟩
        · refine ⟨j + 1, js, d, ?_, hd, hk⟩
          rw [Nat.add_assoc, Nat.add_comm 1]
      · rintro ⟨j, js, d, rfl, hd, hk⟩
        cases j with
        | zero =>
            cases hd
            exact .inl ⟨js, by simp, hk⟩
        | succ j =>
            refine .inr ⟨j, js, d, ?_, hd, hk⟩
            rw [Nat.add_assoc, Nat.add_comm 1]

/-- The clauses of a list are those that positions lead to. -/
theorem mem_clausesAll_iff (cs : List Condition) :
    (p, k) ∈ clausesAll cs ↔ clauseAt? cs p = some k := by
  rw [clausesAll, mem_clausesFrom_iff, clauseAt?, Option.bind_eq_some_iff]
  constructor
  · rintro ⟨j, js, d, rfl, hd, hk⟩
    exact ⟨d, by simpa using hd, hk⟩
  · rintro ⟨d, hd, hk⟩
    exact ⟨p.index, p.path, d, by simp, hd, hk⟩

end Members

section Order

/-- Places in one list of nested conditions come from left to right. -/
theorem before_of_place_lt {i m n : Nat} (path is js : List Nat) (h : m < n) :
    Position.Before ⟨i, path ++ m :: is⟩ ⟨i, path ++ n :: js⟩ := by
  refine List.cons_lt_cons_iff.mpr (.inr ⟨rfl, List.append_left_lt ?_⟩)
  exact List.cons_lt_cons_iff.mpr (.inl h)

/-- What is nested comes after what it is nested in. -/
theorem before_of_nested (position : Position) (j : Nat) (js : List Nat) :
    position.Before ⟨position.index, position.path ++ j :: js⟩ := by
  refine List.cons_lt_cons_iff.mpr (.inr ⟨rfl, ?_⟩)
  have hlt : position.path ++ [] < position.path ++ j :: js :=
    List.append_left_lt (List.nil_lt_cons j js)
  rwa [List.append_nil] at hlt

mutual

/-- The clauses of a condition are listed in the order of their positions. -/
theorem pairwise_clauses (position : Position) : ∀ c : Condition,
    (clauses position c).Pairwise fun x y => x.1.Before y.1
  | ⟨clause, nested⟩ => by
      rw [clauses, List.pairwise_cons]
      refine ⟨?_, pairwise_clausesNested position 0 nested⟩
      rintro ⟨p, k⟩ hp
      obtain ⟨j, js, d, rfl, -⟩ := (mem_clausesNested_iff p k position 0 nested).mp hp
      exact before_of_nested position _ js

theorem pairwise_clausesNested (position : Position) (place : Nat) :
    ∀ cs : List Condition,
      (clausesNested position place cs).Pairwise fun x y => x.1.Before y.1
  | [] => by simp [clausesNested]
  | c :: cs => by
      rw [clausesNested, List.pairwise_append]
      refine ⟨pairwise_clauses (position.child place) c,
        pairwise_clausesNested position (place + 1) cs, ?_⟩
      rintro ⟨p, k⟩ hp ⟨q, l⟩ hq
      obtain ⟨is, rfl, -⟩ := (mem_clauses_iff p k (position.child place) c).mp hp
      obtain ⟨j, js, d, rfl, -⟩ := (mem_clausesNested_iff q l position (place + 1) cs).mp hq
      have hlt : place < place + 1 + j := by omega
      simpa [Position.child] using
        before_of_place_lt (i := position.index) position.path is js hlt

end

theorem pairwise_clausesFrom (index : Nat) (cs : List Condition) :
    (clausesFrom index cs).Pairwise fun x y => x.1.Before y.1 := by
  induction cs generalizing index with
  | nil => simp [clausesFrom]
  | cons c cs ih =>
      rw [clausesFrom, List.pairwise_append]
      refine ⟨pairwise_clauses _ c, ih (index + 1), ?_⟩
      rintro ⟨p, k⟩ hp ⟨q, l⟩ hq
      obtain ⟨is, rfl, -⟩ := (mem_clauses_iff p k _ c).mp hp
      obtain ⟨j, js, d, rfl, -⟩ := (mem_clausesFrom_iff q l (index + 1) cs).mp hq
      have hlt : index < index + 1 + j := by omega
      exact List.cons_lt_cons_iff.mpr (.inl hlt)

/-- The clauses of a list are counted in the order of their positions. -/
theorem pairwise_clausesAll (cs : List Condition) :
    (clausesAll cs).Pairwise fun x y => x.1.Before y.1 :=
  pairwise_clausesFrom 0 cs

end Order

end Condition
end FieldRules
