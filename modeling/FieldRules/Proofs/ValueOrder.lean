import FieldRules.Proofs.Comparison
import FieldRules.Proofs.Ranks

/-!
# The order of values

Values of a kind that has an order are compared by the numbers that they stand for: integers, floats
and decimals by the numbers that they denote, date-times by their nanoseconds.  So the laws of the
comparisons are those of the order of rational numbers, as long as no float is involved that is not
a number.  Values of the other kinds are only compared for equality, and values of different kinds
not at all.

**Results.**
* `Value.compare_of_ordered`: values of an ordered kind are compared by their ranks.
* `Value.equals_of_compare`: an answer to the question for equality is right.
* `Value.compare_lawful`: the laws of comparisons.
-/

namespace FieldRules

/-- The kinds of values. -/
inductive Value.Kind
  | int
  | float
  | decimal
  | bool
  | dateTime
  | text
  | member
deriving DecidableEq

/-- Whether there is an order on the values of a kind. -/
def Value.Kind.isOrdered : Kind → Bool
  | .int | .float | .decimal | .dateTime => true
  | .bool | .text | .member => false

theorem Value.Kind.isOrdered_eq_false_iff {k : Kind} :
    k.isOrdered = false ↔ k ∈ [.bool, .text, .member] := by
  cases k <;> decide

/-- What a comparison says about two numbers. -/
def Comparison.Relates : Comparison → ℚ → ℚ → Prop
  | .equal, x, y => x = y
  | .greater, x, y => y < x
  | .greaterOrEqual, x, y => y ≤ x
  | .less, x, y => x < y
  | .lessOrEqual, x, y => x ≤ y

instance (c : Comparison) (x y : ℚ) : Decidable (c.Relates x y) :=
  match c with
  | .equal => inferInstanceAs (Decidable (x = y))
  | .greater => inferInstanceAs (Decidable (y < x))
  | .greaterOrEqual => inferInstanceAs (Decidable (y ≤ x))
  | .less => inferInstanceAs (Decidable (x < y))
  | .lessOrEqual => inferInstanceAs (Decidable (x ≤ y))

/-- The comparison that says the same of exchanged operands. -/
def Comparison.swap : Comparison → Comparison
  | .equal => .equal
  | .greater => .less
  | .greaterOrEqual => .lessOrEqual
  | .less => .greater
  | .lessOrEqual => .greaterOrEqual

namespace Value

/-- The kind of a value. -/
def kind : Value → Kind
  | .int _ => .int
  | .float _ => .float
  | .decimal _ => .decimal
  | .bool _ => .bool
  | .dateTime _ => .dateTime
  | .text _ => .text
  | .member _ => .member

/-- The number that stands for a value in the order of its kind. -/
def rank : Value → ℚ
  | .int n => n.toInt
  | .float x => x.number
  | .decimal d => d.number
  | .dateTime t => t.rank
  | .bool _ | .text _ | .member _ => 0

/-- Two values have an order: they are of one ordered kind, and numbers. -/
structure Ordered (a b : Value) : Prop where
  kind : a.kind = b.kind
  ordered : a.kind.isOrdered = true
  left : a.isNaN = false
  right : b.isNaN = false

/-- Two values are equal.  Decimals are if they denote the same number, whatever their scales;
a float equals itself if it is a number, and the two zeros equal one another. -/
inductive Equals : Value → Value → Prop
  | int (n : Int64) : Equals (.int n) (.int n)
  | float {x : Binary64} (number : x.isNaN = false) : Equals (.float x) (.float x)
  | zero {x y : Binary64} (left : x.magnitude = 0) (right : y.magnitude = 0) :
      Equals (.float x) (.float y)
  | decimal {d e : Decimal} (number : d.number = e.number) : Equals (.decimal d) (.decimal e)
  | bool (b : Bool) : Equals (.bool b) (.bool b)
  | dateTime (t : DateTime) : Equals (.dateTime t) (.dateTime t)
  | text (s : String) : Equals (.text s) (.text s)
  | member (name : String) : Equals (.member name) (.member name)

end Value

/-- The laws of a consistent comparison of values. -/
structure Value.Laws (compare : Comparison → Value → Value → Option Bool) : Prop where
  /-- There is no answer exactly between values of different kinds, for an order on truth values,
  texts or members, and between floats one of which is not a number. -/
  unanswered : ∀ c a b, compare c a b = none ↔
    a.kind ≠ b.kind ∨ (a.kind ∈ [.bool, .text, .member] ∧ c ≠ .equal) ∨
      (a.kind = .float ∧ b.kind = .float ∧ (a.isNaN = true ∨ b.isNaN = true))
  /-- An answer to the question for equality is whether the values are equal. -/
  equality : ∀ a b answer, compare .equal a b = some answer →
    answer = a.same b ∧ (answer = true ↔ a.Equals b)
  /-- Of two values with an order, one is less, or they are equal, or one is greater. -/
  trichotomy : ∀ a b, a.Ordered b →
    (compare .less a b, compare .equal a b, compare .greater a b) ∈
      [(some true, some false, some false), (some false, some true, some false),
        (some false, some false, some true)]
  greaterOrEqual : ∀ a b, compare .greaterOrEqual a b = (compare .less a b).map not
  lessOrEqual : ∀ a b, compare .lessOrEqual a b = (compare .greater a b).map not
  exchange : ∀ a b, compare .less b a = compare .greater a b
  transitivity : ∀ a b c, compare .less a b = some true → compare .less b c = some true →
    compare .less a c = some true
  /-- Equal values can stand for one another on either side of any comparison. -/
  substitution : ∀ a b, compare .equal a b = some true → ∀ c x,
    compare c a x = compare c b x ∧ compare c x a = compare c x b
  /-- Values with an order are compared by the numbers that they stand for: integers, floats and
  decimals of any scales by what they denote, and date-times by their nanoseconds. -/
  numbers : ∀ c a b, a.Ordered b → compare c a b = some (decide (c.Relates a.rank b.rank))
  /-- A leap second lies between the second that it follows and the next one. -/
  leapSeconds : ∀ t u v : DateTime, t.time.isLeap = false → u.time.isLeap = true →
    t.timestamp ≤ u.timestamp → u.timestamp < v.timestamp →
    compare .less (.dateTime t) (.dateTime u) = some true ∧
      compare .less (.dateTime u) (.dateTime v) = some true

theorem Comparison.holds_compare (c : Comparison) (x y : ℚ) :
    c.holds (Ord.compare x y) = decide (c.Relates x y) := by
  rcases lt_trichotomy x y with h | h | h
  · rw [compare_lt_iff_lt.mpr h]
    cases c <;> simp [holds, Relates, h, h.le, h.ne, h.not_ge, h.not_gt]
  · rw [compare_eq_iff_eq.mpr h]
    cases c <;> simp [holds, Relates, h]
  · rw [compare_gt_iff_gt.mpr h]
    cases c <;> simp [holds, Relates, h, h.le, h.ne', h.not_ge, h.not_gt]

theorem Comparison.relates_swap (c : Comparison) (x y : ℚ) :
    c.Relates y x ↔ c.swap.Relates x y := by
  cases c with
  | equal => exact eq_comm
  | _ => exact Iff.rfl

namespace Value

variable {a b x : Value} {c : Comparison}

theorem order?_of_ordered (h : a.Ordered b) : a.order? b = some (Ord.compare a.rank b.rank) := by
  obtain ⟨hkind, hordered, ha, hb⟩ := h
  cases a <;> cases hordered <;> cases b <;> cases hkind
  case int m n => rw [order?, rank, rank, compare_cast]
  case float x y =>
    rw [order?, rank, rank, ← Binary64.compare_key, Binary64.compare?]
    rw [isNaN] at ha hb
    rw [ha, hb]
    rfl
  case decimal d e => rw [order?, rank, rank, Decimal.compare_eq_number]
  case dateTime t u => rw [order?, rank, rank, compare_cast, DateTime.compare_eq_rank]

theorem ordered_of_order? {o : Ordering} (h : a.order? b = some o) : a.Ordered b := by
  cases a <;> cases b <;> try cases h
  case int.int => exact ⟨rfl, rfl, rfl, rfl⟩
  case float.float x y =>
    have hnone : ¬ (x.isNaN = true ∨ y.isNaN = true) := fun hnan => by
      rw [order?, (Binary64.compare?_eq_none_iff x y).mpr hnan] at h
      cases h
    rw [not_or, Bool.not_eq_true, Bool.not_eq_true] at hnone
    exact ⟨rfl, rfl, hnone.1, hnone.2⟩
  case decimal.decimal => exact ⟨rfl, rfl, rfl, rfl⟩
  case dateTime.dateTime => exact ⟨rfl, rfl, rfl, rfl⟩

/-- Values with an order are compared by their ranks. -/
theorem compare_of_ordered (h : a.Ordered b) :
    compare c a b = some (decide (c.Relates a.rank b.rank)) := by
  rw [compare_ordered (order?_of_ordered h), Comparison.holds_compare]

/-- Values of a kind without order are compared for equality. -/
theorem compare_of_equality (hkind : a.kind = b.kind) (hordered : a.kind.isOrdered = false) :
    compare c a b = equalityOnly c (decide (a = b)) := by
  cases a <;> cases hordered <;> cases b <;> cases hkind
  case bool s t => simp [compare, beq_eq_decide]
  case text s t => simp [compare, beq_eq_decide]
  case member s t => simp [compare, beq_eq_decide]

theorem compare_eq_map (h : a.kind = b.kind → a.kind.isOrdered = true) :
    compare c a b = (a.order? b).map c.holds := by
  cases a <;> cases b <;> first | rfl | cases h rfl

theorem compare_eq_none (h : ¬ a.Ordered b) (hkind : a.kind = b.kind → a.kind.isOrdered = true) :
    compare c a b = none := by
  rw [compare_eq_map hkind, Option.map_eq_none_iff]
  cases horder : a.order? b with
  | none => rfl
  | some o => exact absurd (ordered_of_order? horder) h

theorem Ordered.symm (h : a.Ordered b) : b.Ordered a :=
  ⟨h.kind.symm, h.kind ▸ h.ordered, h.right, h.left⟩

/-- Two values have an order, or are of one kind without order, or are not compared at all. -/
theorem compare_cases (a b : Value) :
    a.Ordered b ∨ (a.kind = b.kind ∧ a.kind.isOrdered = false) ∨
      ∀ c, compare c a b = none ∧ compare c b a = none := by
  by_cases h : a.Ordered b
  · exact .inl h
  · right
    by_cases hequality : a.kind = b.kind ∧ a.kind.isOrdered = false
    · exact .inl hequality
    · rw [not_and, Bool.not_eq_false] at hequality
      refine .inr fun c => ⟨compare_eq_none h hequality, ?_⟩
      exact compare_eq_none (fun hba => h hba.symm) fun hkind => hkind ▸ hequality hkind.symm

theorem rank_eq_of_equals (h : a.Equals b) : a.rank = b.rank := by
  cases h with
  | zero left right => simp [rank, Binary64.number_eq, Binary64.key, left, right]
  | decimal number => exact number
  | _ => rfl

/-- Values with an order are equal if their ranks are. -/
theorem equals_of_rank_eq (h : a.Ordered b) (hrank : a.rank = b.rank) : a.Equals b := by
  obtain ⟨hkind, hordered, ha, hb⟩ := h
  cases a <;> cases hordered <;> cases b <;> cases hkind
  case int m n =>
    rw [Int64.toInt_inj.mp (Int.cast_injective hrank)]
    exact .int n
  case float x y =>
    rcases Binary64.eq_of_key (Binary64.key_eq_of_number hrank) with rfl | ⟨hx, hy⟩
    · exact .float ha
    · exact .zero hx hy
  case decimal d e => exact .decimal hrank
  case dateTime t u =>
    rw [DateTime.rank_injective (Int.cast_injective hrank)]
    exact .dateTime u

theorem equals_iff_eq (hordered : a.kind.isOrdered = false) : a.Equals b ↔ a = b := by
  constructor
  · intro heq
    cases heq <;> first | rfl | cases hordered
  · rintro rfl
    cases a with
    | bool b => exact .bool b
    | text s => exact .text s
    | member name => exact .member name
    | int | float | decimal | dateTime => cases hordered

/-- An answer to the question for equality is right. -/
theorem equals_of_compare {answer : Bool} (h : compare .equal a b = some answer) :
    answer = true ↔ a.Equals b := by
  rcases compare_cases a b with hab | ⟨hkind, hordered⟩ | hnone
  · rw [compare_of_ordered hab, Option.some.injEq] at h
    rw [← h, decide_eq_true_iff]
    exact ⟨equals_of_rank_eq hab, rank_eq_of_equals⟩
  · rw [compare_of_equality hkind hordered, equalityOnly, if_pos rfl, Option.some.injEq] at h
    rw [← h, decide_eq_true_iff, equals_iff_eq hordered]
  · rw [(hnone .equal).1] at h
    cases h

theorem same_of_compare {answer : Bool} (h : compare .equal a b = some answer) :
    answer = a.same b := by
  by_cases hkind : a.kind = b.kind → a.kind.isOrdered = true
  · have hsame : a.same b = (a.order? b == some .eq) := by
      cases a <;> cases b <;> first | rfl | cases hkind rfl
    rw [compare_eq_map hkind] at h
    obtain ⟨o, ho, rfl⟩ := Option.map_eq_some_iff.mp h
    rw [hsame, ho]
    rfl
  · rw [Classical.not_imp, Bool.not_eq_true] at hkind
    obtain ⟨hkind, hordered⟩ := hkind
    cases a <;> cases hordered <;> cases b <;> cases hkind <;> cases h <;> rfl

/-- Equal values are compared alike. -/
theorem Equals.compare_congr (h : a.Equals b) : compare c a x = compare c b x := by
  have hkind : a.kind = b.kind := by cases h <;> rfl
  have hnan : a.isNaN = b.isNaN := by
    cases h with
    | zero left right => simp [isNaN, Binary64.isNaN, left, right]
    | _ => rfl
  cases hordered : a.kind.isOrdered with
  | false => rw [(equals_iff_eq hordered).mp h]
  | true =>
      by_cases hax : a.Ordered x
      · have hbx : b.Ordered x := ⟨hkind ▸ hax.kind, hkind ▸ hordered, hnan ▸ hax.left, hax.right⟩
        rw [compare_of_ordered hax, compare_of_ordered hbx, rank_eq_of_equals h]
      · have hbx : ¬ b.Ordered x := fun hbx =>
          hax ⟨hkind ▸ hbx.kind, hordered, hnan ▸ hbx.left, hbx.right⟩
        rw [compare_eq_none hax fun _ => hordered, compare_eq_none hbx fun _ => hkind ▸ hordered]

/-- Exchanging the operands of a comparison turns it round. -/
theorem compare_swap (c : Comparison) (a b : Value) : compare c b a = compare c.swap a b := by
  rcases compare_cases a b with hab | ⟨hkind, hordered⟩ | hnone
  · rw [compare_of_ordered hab, compare_of_ordered hab.symm]
    exact congrArg some (decide_eq_decide.mpr (Comparison.relates_swap c _ _))
  · rw [compare_of_equality hkind hordered, compare_of_equality hkind.symm (hkind ▸ hordered)]
    cases c <;> simp [equalityOnly, Comparison.swap, eq_comm]
  · rw [(hnone c).2, (hnone c.swap).1]

/-- An order between values is one between their ranks. -/
theorem compare_eq_true_iff (hc : c ≠ .equal) :
    compare c a b = some true ↔ a.Ordered b ∧ c.Relates a.rank b.rank := by
  constructor
  · intro h
    rcases compare_cases a b with hab | ⟨hkind, hordered⟩ | hnone
    · rw [compare_of_ordered hab, Option.some.injEq, decide_eq_true_iff] at h
      exact ⟨hab, h⟩
    · rw [compare_of_equality hkind hordered, equalityOnly, if_neg hc] at h
      cases h
    · rw [(hnone c).1] at h
      cases h
  · rintro ⟨hab, h⟩
    rw [compare_of_ordered hab, Option.some.injEq, decide_eq_true_iff]
    exact h

/-- What is transitive on numbers is so on values. -/
theorem compare_trans (hc : c ≠ .equal)
    (htrans : ∀ {x y z}, c.Relates x y → c.Relates y z → c.Relates x z)
    (hab : compare c a b = some true) (hbx : compare c b x = some true) :
    compare c a x = some true := by
  obtain ⟨hab, hless⟩ := (compare_eq_true_iff hc).mp hab
  obtain ⟨hbx, hless'⟩ := (compare_eq_true_iff hc).mp hbx
  have hax : a.Ordered x := ⟨hab.kind.trans hbx.kind, hab.ordered, hab.left, hbx.right⟩
  exact (compare_eq_true_iff hc).mpr ⟨hax, htrans hless hless'⟩

/-- A comparison that is the opposite of another one on numbers is so on values. -/
theorem compare_eq_map_not {c d : Comparison} (hc : c ≠ .equal) (hd : d ≠ .equal)
    (hopposite : ∀ x y, c.Relates x y ↔ ¬ d.Relates x y) (a b : Value) :
    compare c a b = (compare d a b).map not := by
  rcases compare_cases a b with hab | ⟨hkind, hordered⟩ | hnone
  · rw [compare_of_ordered hab, compare_of_ordered hab, Option.map_some, ← decide_not]
    exact congrArg some (decide_eq_decide.mpr (hopposite _ _))
  · rw [compare_of_equality hkind hordered, compare_of_equality hkind hordered, equalityOnly,
      equalityOnly, if_neg hc, if_neg hd, Option.map_none]
  · rw [(hnone c).1, (hnone d).1, Option.map_none]

theorem kind_of_isNaN (h : a.isNaN = true) : a.kind = .float := by
  cases a with
  | float => rfl
  | _ => cases h

/-- A comparison gives no answer between different kinds, beyond equality on kinds
without an order, and where one of two floats is no number. -/
theorem compare_eq_none_iff (c : Comparison) (a b : Value) :
    compare c a b = none ↔
      a.kind ≠ b.kind ∨ (a.kind ∈ [.bool, .text, .member] ∧ c ≠ .equal) ∨
        (a.kind = .float ∧ b.kind = .float ∧ (a.isNaN = true ∨ b.isNaN = true)) := by
  constructor
  · intro hnone
    by_cases hkind : a.kind = b.kind
    · right
      cases hordered : a.kind.isOrdered with
      | false =>
          refine .inl ⟨Kind.isOrdered_eq_false_iff.mp hordered, ?_⟩
          rintro rfl
          rw [compare_of_equality hkind hordered] at hnone
          cases hnone
      | true =>
          have hnan : a.isNaN = true ∨ b.isNaN = true := by
            by_contra hnumbers
            rw [not_or, Bool.not_eq_true, Bool.not_eq_true] at hnumbers
            rw [compare_of_ordered ⟨hkind, hordered, hnumbers.1, hnumbers.2⟩] at hnone
            cases hnone
          have hfloat := hnan.imp kind_of_isNaN kind_of_isNaN
          rw [← hkind, or_self] at hfloat
          exact .inr ⟨hfloat, hkind ▸ hfloat, hnan⟩
    · exact .inl hkind
  · rintro (hkind | ⟨hmem, hc⟩ | ⟨-, -, hnan⟩)
    · exact compare_eq_none (fun h => hkind h.kind) fun h => absurd h hkind
    · have hordered := Kind.isOrdered_eq_false_iff.mpr hmem
      by_cases hkind : a.kind = b.kind
      · rw [compare_of_equality hkind hordered, equalityOnly, if_neg hc]
      · exact compare_eq_none (fun h => hkind h.kind) fun h => absurd h hkind
    · exact compare_eq_none_of_isNaN hnan

theorem compare_trichotomy (h : a.Ordered b) :
    (compare .less a b, compare .equal a b, compare .greater a b) ∈
      [(some true, some false, some false), (some false, some true, some false),
        (some false, some false, some true)] := by
  rw [compare_of_ordered h, compare_of_ordered h, compare_of_ordered h]
  rcases lt_trichotomy a.rank b.rank with hlt | heq | hgt
  · simp [Comparison.Relates, hlt, hlt.ne, hlt.not_gt]
  · simp [Comparison.Relates, heq]
  · simp [Comparison.Relates, hgt, hgt.ne', hgt.not_gt]

theorem compare_less_dateTime {t u : DateTime} (h : t.rank < u.rank) :
    compare .less (.dateTime t) (.dateTime u) = some true := by
  have hordered : (dateTime t).Ordered (dateTime u) := ⟨rfl, rfl, rfl, rfl⟩
  exact (compare_eq_true_iff (by decide)).mpr ⟨hordered, Int.cast_lt.mpr h⟩

/-- **The laws of comparisons.**  Values are compared by a linear order on every kind that has
one, and for equality on the others. -/
theorem compare_lawful : Laws compare where
  unanswered := compare_eq_none_iff
  equality _ _ _ h := ⟨same_of_compare h, equals_of_compare h⟩
  trichotomy _ _ h := compare_trichotomy h
  greaterOrEqual := compare_eq_map_not (by decide) (by decide) fun _ _ => not_lt.symm
  lessOrEqual := compare_eq_map_not (by decide) (by decide) fun _ _ => not_lt.symm
  exchange a b := compare_swap .less a b
  transitivity _ _ _ := compare_trans (by decide) lt_trans
  substitution a b h c x := by
    have heq := (equals_of_compare h).mp rfl
    refine ⟨heq.compare_congr, ?_⟩
    rw [compare_swap c a x, compare_swap c b x, heq.compare_congr]
  numbers _ _ _ h := compare_of_ordered h
  leapSeconds t u v ht hu htu huv := by
    rw [TimeOfDay.isLeap, decide_eq_false_iff_not] at ht
    rw [TimeOfDay.isLeap, decide_eq_true_iff] at hu
    exact ⟨compare_less_dateTime (DateTime.rank_lt_iff.mpr (by omega)),
      compare_less_dateTime (DateTime.rank_lt_iff.mpr (.inl huv))⟩

end Value

end FieldRules
