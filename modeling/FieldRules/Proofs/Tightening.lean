import FieldRules.Proofs.Reads
import FieldRules.Proofs.Reordering
import FieldRules.Proofs.ValueOrder
import Mathlib.Logic.Relation

/-!
# Stricter conditions

Neither a condition nor a list of conditions ever asks for the opposite of something: conditions
are joined by `AND` and `OR` only.  So if each clause that is true of a record is true of it after
a change, what was accepted is still accepted.  This is said of two lists whose clauses stand at
the same positions, and from it edits can be judged that make a list stricter: a lower bound is
raised or an upper one lowered, a range that was open on one side is closed, candidates are
removed, or a condition is nested in another one.  An edit may be made at any depth.

That a raised bound makes a clause stricter is the transitivity of the order of values; everything
else is the monotony of the connectives.

**Results.**
* `Clause.truth_of_stricter`: a clause that is made stricter is true of fewer records.
* `Condition.truth_of_tightens`: so is a condition that is edited in one place.
* `Condition.foldAll_mono`: lists of conditions are monotone.
* `Predicate.evaluate_of_stricter`: the predicates of lists that are made stricter.
-/

namespace FieldRules

section Edits

variable {ρ : Type} (schema : Schema ρ) (formats : List String)

/-- A clause is made stricter: one of its bounds is moved inwards, the missing bound of a range is
added, or candidates are removed. -/
inductive Clause.Stricter (c : Clause) : Clause → Prop
  | raise {f : Field ρ} {lower lower' : String} {v v' : Value}
      (field : schema.field? c.property = some f)
      (given : Operand.given? c.minValue = some lower)
      (old : Operand.coerce formats f.type lower = .ok (some v))
      (new : Operand.coerce formats f.type lower' = .ok (some v'))
      (higher : Value.compare .lessOrEqual v v' = some true) :
      Stricter c { c with minValue := some lower' }
  | reduce {f : Field ρ} {upper upper' : String} {v v' : Value}
      (field : schema.field? c.property = some f)
      (given : Operand.given? c.maxValue = some upper)
      (old : Operand.coerce formats f.type upper = .ok (some v))
      (new : Operand.coerce formats f.type upper' = .ok (some v'))
      (lesser : Value.compare .lessOrEqual v' v = some true) :
      Stricter c { c with maxValue := some upper' }
  | addUpper {lower : String} (upper : String)
      (given : Operand.given? c.minValue = some lower)
      (missing : Operand.given? c.maxValue = none) :
      Stricter c { c with maxValue := some upper }
  | addLower {upper : String} (lower : String)
      (given : Operand.given? c.maxValue = some upper)
      (missing : Operand.given? c.minValue = none) :
      Stricter c { c with minValue := some lower }
  | remove {values : List String} (fewer : values.Sublist c.values) :
      Stricter c { c with values := values }

/-- A condition is edited in one place: a clause in it is made stricter, or a condition is nested
in one of its conditions. -/
inductive Condition.Tightens : Condition → Condition → Prop
  | clause {c d : Clause} (nested : List Condition) (h : c.Stricter schema formats d) :
      Tightens ⟨c, nested⟩ ⟨d, nested⟩
  | nest (c : Clause) (before after : List Condition) (new : Condition) :
      Tightens ⟨c, before ++ after⟩ ⟨c, before ++ new :: after⟩
  | inside (c : Clause) (before after : List Condition) {a b : Condition} (h : Tightens a b) :
      Tightens ⟨c, before ++ a :: after⟩ ⟨c, before ++ b :: after⟩

/-- A list of conditions is edited in one place. -/
inductive Condition.TightensIn : List Condition → List Condition → Prop
  | here (before after : List Condition) {a b : Condition} (h : a.Tightens schema formats b) :
      TightensIn (before ++ a :: after) (before ++ b :: after)

end Edits

namespace Value

theorem meets_eq_true_iff {c : Comparison} {a b : Value} :
    meets c a b = true ↔ compare c a b = some true := by
  constructor
  · intro h
    simp only [meets, Bool.and_eq_true, beq_iff_eq] at h
    exact h.2
  · intro h
    have hnan : ¬ (a.isNaN = true ∨ b.isNaN = true) := fun hnan => by
      rw [compare_eq_none_of_isNaN hnan] at h
      cases h
    rw [not_or, Bool.not_eq_true, Bool.not_eq_true] at hnan
    rw [meets, hnan.1, hnan.2, h]
    rfl

end Value

section Clauses

variable {ρ : Type} {schema : Schema ρ} {formats : List String} {record : ρ}

theorem Schema.meets_of_coerce {name text : String} {f : Field ρ} {v : Value}
    (hfield : schema.field? name = some f)
    (hv : Operand.coerce formats f.type text = .ok (some v)) (c : Comparison) :
    schema.meets formats record name c text = Value.meets c (f.read record) v := by
  rw [meets, hfield]
  simp only [hv]

/-- A field that meets the stricter of two bounds meets the other one. -/
theorem Schema.meets_trans {name text text' : String} {f : Field ρ} {v v' : Value}
    (hfield : schema.field? name = some f)
    (hv : Operand.coerce formats f.type text = .ok (some v))
    (hv' : Operand.coerce formats f.type text' = .ok (some v')) {c : Comparison} (hc : c ≠ .equal)
    (htrans : ∀ {x y z}, c.Relates x y → c.Relates y z → c.Relates x z)
    (hbound : Value.compare c v' v = some true)
    (h : schema.meets formats record name c text' = true) :
    schema.meets formats record name c text = true := by
  rw [meets_of_coerce hfield hv', Value.meets_eq_true_iff] at h
  rw [meets_of_coerce hfield hv, Value.meets_eq_true_iff]
  exact Value.compare_trans hc htrans h hbound

theorem Operand.given?_of_coerce {type : FieldType} {s : String} {v : Value}
    (h : coerce formats type s = .ok (some v)) : given? (some s) = some s := by
  simp [given?, ne_empty_of_coerce h]

/-- Fewer candidates are met by fewer records. -/
theorem Clause.operatorTruth_of_sublist {c : Clause} {values : List String}
    (h : values.Sublist c.values)
    (hd : { c with values := values }.operatorTruth schema formats record = true) :
    c.operatorTruth schema formats record = true := by
  unfold operatorTruth at hd ⊢
  cases hop : c.operator with
  | isIn =>
      simp only [hop, List.any_eq_true] at hd ⊢
      obtain ⟨s, hs, hmeets⟩ := hd
      exact ⟨s, (h.filter _).subset hs, hmeets⟩
  | _ =>
      simp only [hop] at hd ⊢
      exact hd

/-- A clause with a lower bound is true of the records that meet it, and the upper bound if there
is one. -/
theorem Clause.truth_iff_of_lower {c : Clause} {lower : String}
    (h : Operand.given? c.minValue = some lower) :
    c.truth schema formats record = true ↔
      schema.meets formats record c.property .greaterOrEqual lower = true ∧
      ∀ upper, Operand.given? c.maxValue = some upper →
        schema.meets formats record c.property .lessOrEqual upper = true := by
  unfold truth
  cases hupper : Operand.given? c.maxValue <;> simp [h]

/-- A clause with an upper bound is true of the records that meet it, and the lower bound if there
is one. -/
theorem Clause.truth_iff_of_upper {c : Clause} {upper : String}
    (h : Operand.given? c.maxValue = some upper) :
    c.truth schema formats record = true ↔
      schema.meets formats record c.property .lessOrEqual upper = true ∧
      ∀ lower, Operand.given? c.minValue = some lower →
        schema.meets formats record c.property .greaterOrEqual lower = true := by
  unfold truth
  cases hlower : Operand.given? c.minValue <;> simp [h, and_comm]

/-- A clause that is made stricter is true of fewer records. -/
theorem Clause.truth_of_stricter {c d : Clause} (h : c.Stricter schema formats d)
    (hd : d.truth schema formats record = true) : c.truth schema formats record = true := by
  cases h with
  | @raise f lower lower' v v' field given old new higher =>
      obtain ⟨hlower, hupper⟩ := (truth_iff_of_lower (Operand.given?_of_coerce new)).mp hd
      have hbound : Value.compare .greaterOrEqual v' v = some true := by
        rw [Value.compare_swap]
        exact higher
      have hmeets : schema.meets formats record c.property .greaterOrEqual lower = true :=
        Schema.meets_trans field old new (by decide) (fun h h' => le_trans h' h) hbound hlower
      exact (truth_iff_of_lower given).mpr ⟨hmeets, hupper⟩
  | @reduce f upper upper' v v' field given old new lesser =>
      obtain ⟨hupper, hlower⟩ := (truth_iff_of_upper (Operand.given?_of_coerce new)).mp hd
      have hmeets : schema.meets formats record c.property .lessOrEqual upper = true :=
        Schema.meets_trans field old new (by decide) le_trans lesser hupper
      exact (truth_iff_of_upper given).mpr ⟨hmeets, hlower⟩
  | addUpper upper given missing =>
      have hbounds := (truth_iff_of_lower (c := { c with maxValue := some upper }) given).mp hd
      refine (truth_iff_of_lower given).mpr ⟨hbounds.1, fun s hs => ?_⟩
      cases missing.symm.trans hs
  | addLower lower given missing =>
      have hbounds := (truth_iff_of_upper (c := { c with minValue := some lower }) given).mp hd
      refine (truth_iff_of_upper given).mpr ⟨hbounds.1, fun s hs => ?_⟩
      cases missing.symm.trans hs
  | remove fewer =>
      unfold truth at hd ⊢
      cases hlower : Operand.given? c.minValue <;> cases hupper : Operand.given? c.maxValue <;>
        simp only [hlower, hupper] at hd ⊢
      case none.none => exact operatorTruth_of_sublist fewer hd
      all_goals exact hd

theorem Clause.connector_of_stricter {c d : Clause} (h : c.Stricter schema formats d) :
    c.connector = d.connector := by
  cases h <;> rfl

end Clauses

namespace Condition

section Truth

variable {ρ : Type} {schema : Schema ρ} {formats : List String} {record : ρ}

/-- A condition is true if every clause in it is. -/
theorem truth_iff {c : Condition} :
    c.truth schema formats record = true ↔
      ∀ path clause, c.along? path = some clause → clause.truth schema formats record = true := by
  rw [truth, List.all_eq_true]
  constructor
  · intro h path clause hclause
    exact h (⟨0, path⟩, clause) ((mem_clauses_iff _ _ ⟨0, []⟩ c).mpr ⟨path, rfl, hclause⟩)
  · rintro h ⟨position, clause⟩ hmem
    obtain ⟨path, -, hclause⟩ := (mem_clauses_iff _ _ ⟨0, []⟩ c).mp hmem
    exact h path clause hclause

/-- A condition is true if its clause and the conditions nested in it are. -/
theorem truth_mk_iff {clause : Clause} {nested : List Condition} :
    truth schema formats record ⟨clause, nested⟩ = true ↔
      clause.truth schema formats record = true ∧
        ∀ c ∈ nested, c.truth schema formats record = true := by
  simp only [truth_iff]
  constructor
  · intro h
    refine ⟨h [] clause rfl, fun c hc path d hd => ?_⟩
    obtain ⟨j, hj⟩ := List.getElem?_of_mem hc
    exact h (j :: path) d (Option.bind_eq_some_iff.mpr ⟨c, hj, hd⟩)
  · rintro ⟨hclause, hnested⟩ path d hd
    cases path with
    | nil =>
        cases hd
        exact hclause
    | cons j path =>
        obtain ⟨c, hc, hd⟩ := Option.bind_eq_some_iff.mp hd
        exact hnested c (List.mem_of_getElem? hc) path d hd

/-- A condition that is edited in one place is true of fewer records. -/
theorem truth_of_tightens {a b : Condition} (h : a.Tightens schema formats b)
    (hb : b.truth schema formats record = true) : a.truth schema formats record = true := by
  induction h with
  | clause nested hstricter =>
      rw [truth_mk_iff] at hb ⊢
      exact ⟨Clause.truth_of_stricter hstricter hb.1, hb.2⟩
  | nest c before after new =>
      rw [truth_mk_iff] at hb ⊢
      rw [List.forall_mem_append, List.forall_mem_cons] at hb
      rw [List.forall_mem_append]
      exact ⟨hb.1, hb.2.1, hb.2.2.2⟩
  | inside c before after _ ih =>
      rw [truth_mk_iff, List.forall_mem_append, List.forall_mem_cons] at hb ⊢
      exact ⟨hb.1, hb.2.1, ih hb.2.2.1, hb.2.2.2⟩

theorem connector_of_tightens {a b : Condition} (h : a.Tightens schema formats b) :
    a.clause.connector = b.clause.connector := by
  cases h with
  | clause nested hstricter => exact Clause.connector_of_stricter hstricter
  | nest | inside => rfl

end Truth

section Lists

variable {ρ : Type} {schema : Schema ρ} {formats : List String} {record : ρ}

/-- What stands at the same positions of two lists stands along the same paths in conditions at
the same places. -/
theorem forall₂_of_clauseAt? {R : Clause → Clause → Prop} : ∀ {as bs : List Condition},
    (∀ position, Option.Rel R (clauseAt? as position) (clauseAt? bs position)) →
      List.Forall₂ (fun a b => ∀ path, Option.Rel R (a.along? path) (b.along? path)) as bs
  | [], [], _ => .nil
  | [], _ :: _, h => nomatch h ⟨0, []⟩
  | _ :: _, [], h => nomatch h ⟨0, []⟩
  | _ :: _, _ :: _, h =>
      .cons (fun path => h ⟨0, path⟩) (forall₂_of_clauseAt? fun p => h ⟨p.index + 1, p.path⟩)

/-- A condition is true if the clauses in another one are, along the same paths. -/
theorem truth_of_along? {a b : Condition}
    (h : ∀ path, Option.Rel (fun c d => c.truth schema formats record = true →
      d.truth schema formats record = true) (a.along? path) (b.along? path))
    (ha : a.truth schema formats record = true) : b.truth schema formats record = true := by
  refine truth_iff.mpr fun path d hd => ?_
  have hpath := h path
  rw [hd] at hpath
  generalize hc : a.along? path = found at hpath
  cases hpath with
  | some himp => exact himp (truth_iff.mp ha path _ hc)

/-- Joining to more what is more often true gives more. -/
theorem apply_mono (k : Connector) {a b x y : Bool} (hab : a = true → b = true)
    (hxy : x = true → y = true) (h : k.apply a x = true) : k.apply b y = true := by
  cases k with
  | and =>
      rw [Connector.apply, Bool.and_eq_true] at h ⊢
      exact h.imp hab hxy
  | or =>
      rw [Connector.apply, Bool.or_eq_true] at h ⊢
      exact h.imp hab hxy

/-- If every condition of a list implies the one at its place in another list, so does
the whole. -/
theorem foldRest_mono {as bs : List Condition}
    (h : List.Forall₂ (fun a b => a.truth schema formats record = true →
      b.truth schema formats record = true) as bs)
    (hconnectors : as.map (fun c => c.clause.connector) = bs.map fun c => c.clause.connector)
    {x y : Bool} (hxy : x = true → y = true)
    (hx : foldRest (Clause.truth schema formats record) Connector.apply x as = true) :
    foldRest (Clause.truth schema formats record) Connector.apply y bs = true := by
  induction h generalizing x y with
  | nil => exact hxy hx
  | @cons a b as bs hab _ ih =>
      obtain ⟨hk, hconnectors⟩ := List.cons.inj hconnectors
      change a.clause.connector = b.clause.connector at hk
      rw [foldRest, ← truth_eq_fold] at hx ⊢
      refine ih hconnectors (fun hjoined => ?_) hx
      rw [← hk]
      exact apply_mono _ hxy hab hjoined

/-- Lists of conditions are monotone. -/
theorem foldAll_mono {as bs : List Condition}
    (h : List.Forall₂ (fun a b => a.truth schema formats record = true →
      b.truth schema formats record = true) as bs)
    (hconnectors :
      as.tail.map (fun c => c.clause.connector) = bs.tail.map fun c => c.clause.connector)
    (has : foldAll (Clause.truth schema formats record) Connector.apply Connector.neutral as =
      true) :
    foldAll (Clause.truth schema formats record) Connector.apply Connector.neutral bs = true := by
  cases h with
  | nil => exact has
  | @cons a b as bs hab hrest =>
      rw [foldAll_cons Connector.apply_neutral, ← truth_eq_fold] at has ⊢
      exact foldRest_mono hrest hconnectors hab has

/-- Lists that are edited in one place are true of fewer records. -/
theorem foldAll_of_tightensIn {as bs : List Condition} (h : TightensIn schema formats as bs)
    (hbs : foldAll (Clause.truth schema formats record) Connector.apply Connector.neutral bs =
      true) :
    foldAll (Clause.truth schema formats record) Connector.apply Connector.neutral as = true := by
  cases h with
  | @here before after a b h =>
      have himp : b.truth schema formats record = true → a.truth schema formats record = true :=
        truth_of_tightens h
      have hsame : ∀ cs : List Condition, List.Forall₂ (fun c d =>
          truth schema formats record c = true → truth schema formats record d = true) cs cs :=
        fun cs => List.forall₂_same.mpr fun _ _ hc => hc
      refine foldAll_mono ?_ ?_ hbs
      · exact List.rel_append (hsame before) (.cons himp (hsame after))
      · cases before <;> simp [connector_of_tightens h]

end Lists

end Condition

/-- **Stricter conditions accept fewer records.**  Let two lists of conditions compile.  If their
clauses stand at the same positions and their conditions after the first have the same connectors,
and every clause of the first list that is true of a record has a true one in the second list, then
a record that the first predicate accepts is accepted by the second one.  And if the second list
comes from the first one by edits that make clauses stricter or nest conditions, at any depth, then
every record that the second predicate accepts is accepted by the first one. -/
theorem Predicate.evaluate_of_stricter {ρ : Type} {schema : Schema ρ} {formats : List String}
    {as bs : List Condition} {p q : Predicate ρ} (hp : compile schema formats as = .ok p)
    (hq : compile schema formats bs = .ok q) :
    (∀ record,
      (∀ position, Option.Rel (fun c d => c.truth schema formats record = true →
        d.truth schema formats record = true)
        (Condition.clauseAt? as position) (Condition.clauseAt? bs position)) →
      as.tail.map (fun c => c.clause.connector) = bs.tail.map (fun c => c.clause.connector) →
      p.evaluate record = true → q.evaluate record = true) ∧
    (Relation.ReflTransGen (Condition.TightensIn schema formats) as bs →
      ∀ record, q.evaluate record = true → p.evaluate record = true) := by
  refine ⟨fun record hclauses hconnectors h => ?_, fun hedits record h => ?_⟩
  · rw [evaluate_eq_foldAll hp] at h
    rw [evaluate_eq_foldAll hq]
    have hconditions := (Condition.forall₂_of_clauseAt? hclauses).imp fun _ _ hpaths =>
      Condition.truth_of_along? hpaths
    exact Condition.foldAll_mono hconditions hconnectors h
  · rw [evaluate_eq_foldAll hq] at h
    rw [evaluate_eq_foldAll hp]
    clear hq
    induction hedits with
    | refl => exact h
    | tail _ hedit ih => exact ih (Condition.foldAll_of_tightensIn hedit h)

namespace Gauge

/-- The conditions on a gauge with a higher lower bound in the nested range. -/
def raisedRules : List Condition :=
  [((Condition.on "state" .isIn).withValues ["", " Busy ", "Idle"]).withNested
      ((Condition.between "level" "0" "+07").joinedBy .or),
    ((Condition.on "load" .greaterThan).withValue "NaN").joinedBy .or,
    ((Condition.on "level" .lessThan).withValue "3").joinedBy .and]

/-- The same conditions, with a further one nested in the last. -/
def stricterRules : List Condition :=
  [((Condition.on "state" .isIn).withValues ["", " Busy ", "Idle"]).withNested
      ((Condition.between "level" "0" "+07").joinedBy .or),
    ((Condition.on "load" .greaterThan).withValue "NaN").joinedBy .or,
    (((Condition.on "level" .lessThan).withValue "3").joinedBy .and).withNested
      ((Condition.on "level" .greaterThanOrEqualTo).withValue "1")]

/-- A higher bound makes the nested range stricter. -/
theorem stricter_range :
    ((Condition.between "level" "-5" "+07").joinedBy .or).clause.Stricter schema []
      ((Condition.between "level" "0" "+07").joinedBy .or).clause :=
  @Clause.Stricter.raise Gauge schema [] _ ⟨"level", .int, Gauge.level⟩ "-5" "0" (.int (-5))
    (.int 0) rfl rfl rfl rfl rfl

theorem tightensIn_raisedRules : Condition.TightensIn schema [] rules raisedRules :=
  .here [] _ (.inside _ [] [] (.clause [] stricter_range))

theorem tightensIn_stricterRules : Condition.TightensIn schema [] raisedRules stricterRules :=
  .here (raisedRules.take 2) [] (.nest _ [] [] _)

/-- Clause by clause, the rules with the higher bound imply the others, so that they are accepted
by fewer gauges, and by fewer still with the nested condition; a gauge of level zero is lost. -/
theorem evaluate_stricterRules :
    ∃ p q r, Predicate.compile schema [] rules = .ok p ∧
      Predicate.compile schema [] raisedRules = .ok q ∧
      Predicate.compile schema [] stricterRules = .ok r ∧
      (∀ record, q.evaluate record = true → p.evaluate record = true) ∧
      (∀ record, r.evaluate record = true → p.evaluate record = true) ∧
      p.evaluate ⟨0, .zero, "Busy"⟩ = true ∧ r.evaluate ⟨0, .zero, "Busy"⟩ = false := by
  obtain ⟨p, hp⟩ : ∃ p, Predicate.compile schema [] rules = .ok p := ⟨_, rfl⟩
  obtain ⟨q, hq⟩ : ∃ q, Predicate.compile schema [] raisedRules = .ok q := ⟨_, rfl⟩
  obtain ⟨r, hr⟩ : ∃ r, Predicate.compile schema [] stricterRules = .ok r := ⟨_, rfl⟩
  refine ⟨p, q, r, hp, hq, hr, fun record => ?_, ?_, ?_, ?_⟩
  · refine (Predicate.evaluate_of_stricter hq hp).1 record ?_ rfl
    rintro ⟨i, path⟩
    match i, path with
    | 0, [] => exact .some fun h => h
    | 0, [0] => exact .some (Clause.truth_of_stricter stricter_range)
    | 0, 0 :: _ :: _ => exact .none
    | 0, (_ + 1) :: _ => exact .none
    | 1, [] => exact .some fun h => h
    | 1, _ :: _ => exact .none
    | 2, [] => exact .some fun h => h
    | 2, _ :: _ => exact .none
    | _ + 3, _ => exact .none
  · exact (Predicate.evaluate_of_stricter hp hr).2
      ((Relation.ReflTransGen.single tightensIn_raisedRules).tail tightensIn_stricterRules)
  · cases hp
    rfl
  · cases hr
    rfl

end Gauge

end FieldRules
