import FieldRules.Schema
import Mathlib.Tactic.ByContra

/-!
# When values can be compared

Two values of one type have an answer to every comparison that the type allows, unless
a float on either side is not a number.

**Results.**
* `compare_eq_none_of_isNaN`: nothing compares with what is not a number.
* `compare_eq_none_iff_of_admits`: within a type nothing else stands in the way.
-/

namespace FieldRules

namespace Value

/-- Whether a value is a float that is not a number. -/
def isNaN : Value → Bool
  | .float x => x.isNaN
  | _ => false

theorem compare_eq_none_of_isNaN {c : Comparison} {a b : Value}
    (h : a.isNaN = true ∨ b.isNaN = true) : compare c a b = none := by
  cases a with
  | float x =>
      cases b with
      | float y =>
          have hxy : x.compare? y = none := (Binary64.compare?_eq_none_iff x y).mpr h
          simp [compare, order?, hxy]
      | _ => rfl
  | _ =>
      cases b with
      | float y => rfl
      | _ => simp [isNaN] at h

/-- Values of one ordered type, both of them numbers, have an order. -/
theorem order?_isSome_of_isOrdered {type : FieldType} {a b : Value}
    (hordered : type.isOrdered = true) (ha : type.admits a = true) (hb : type.admits b = true)
    (hnan : ¬ (a.isNaN = true ∨ b.isNaN = true)) : ∃ o, a.order? b = some o := by
  cases type with
  | int =>
      cases a <;> cases ha
      cases b <;> cases hb
      exact ⟨_, rfl⟩
  | float =>
      cases a <;> cases ha
      cases b <;> cases hb
      rename_i x y
      have hxy : x.compare? y ≠ none := fun hnone =>
        hnan ((Binary64.compare?_eq_none_iff x y).mp hnone)
      exact Option.ne_none_iff_exists'.mp hxy
  | decimal =>
      cases a <;> cases ha
      cases b <;> cases hb
      exact ⟨_, rfl⟩
  | dateTime =>
      cases a <;> cases ha
      cases b <;> cases hb
      exact ⟨_, rfl⟩
  | bool | text | enum e => cases hordered

/-- Values of one type without an order can be compared for equality. -/
theorem compare_equal_of_not_isOrdered {type : FieldType} {a b : Value}
    (hordered : type.isOrdered = false) (ha : type.admits a = true) (hb : type.admits b = true) :
    ∃ answer, compare .equal a b = some answer := by
  cases type with
  | bool =>
      cases a <;> cases ha
      cases b <;> cases hb
      exact ⟨_, rfl⟩
  | text =>
      cases a <;> cases ha
      cases b <;> cases hb
      exact ⟨_, rfl⟩
  | enum e =>
      cases a <;> cases ha
      cases b <;> cases hb
      exact ⟨_, rfl⟩
  | int | float | decimal | dateTime => cases hordered

/-- Within a type that allows a comparison there is an answer, unless one of the values
is not a number. -/
theorem compare_eq_none_iff_of_admits {type : FieldType} {c : Comparison} {a b : Value}
    (ha : type.admits a = true) (hb : type.admits b = true)
    (hc : c ≠ .equal → type.isOrdered = true) :
    compare c a b = none ↔ a.isNaN = true ∨ b.isNaN = true := by
  refine ⟨fun h => ?_, compare_eq_none_of_isNaN⟩
  by_contra hnan
  cases hordered : type.isOrdered with
  | true =>
      obtain ⟨o, ho⟩ := order?_isSome_of_isOrdered hordered ha hb hnan
      rw [compare_ordered ho] at h
      cases h
  | false =>
      have hequal : c = .equal := by
        by_contra hne
        rw [hc hne] at hordered
        cases hordered
      obtain ⟨answer, hanswer⟩ := compare_equal_of_not_isOrdered hordered ha hb
      rw [hequal, hanswer] at h
      cases h

end Value
end FieldRules
