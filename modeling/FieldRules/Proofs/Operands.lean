import FieldRules.Proofs.Compilation
import Mathlib.Data.List.Forall2

/-!
# Which operands count

An operand counts if it is there and not empty.  The operands that count are those
that are coerced to values, and of the candidates of a clause the values are kept in
order.

**Results.**
* `Clause.given_of_coerce`, `Clause.not_given_of_coerce`: an operand is given exactly if
  it is coerced to a value.
* `Clause.candidates_eq_ok`: the values of candidates are those of the candidates that
  are not empty.
-/

namespace FieldRules

/-- The text of an operand that counts: one that is there and not empty. -/
def Operand.given? (raw : Option String) : Option String :=
  raw.filter fun s => s ≠ ""

/-- The candidates that count: those that are not empty. -/
def Operand.givenAll (raws : List String) : List String :=
  raws.filter fun s => s ≠ ""

/-- Only the empty operand denotes nothing. -/
theorem Operand.eq_empty_of_coerce {formats : List String} {type : FieldType} {raw : String}
    (h : coerce formats type raw = .ok none) : raw = "" := by
  unfold coerce at h
  split at h
  next hempty => exact hempty
  next =>
    split at h
    · cases h
    · cases hr : read formats (Text.trim raw.toList) type with
      | error e => simp [hr, Except.map] at h
      | ok w => simp [hr, Except.map] at h

theorem Operand.ne_empty_of_coerce {formats : List String} {type : FieldType} {raw : String}
    {v : Value} (h : coerce formats type raw = .ok (some v)) : raw ≠ "" := by
  rintro rfl
  cases h

namespace Clause

variable {formats : List String} {t : Target}

theorem coerce_some_eq_ok {raw : String} {v : Option Value} :
    coerce formats t (some raw) = .ok v ↔ Operand.coerce formats t.type raw = .ok v := by
  rw [coerce]
  cases Operand.coerce formats t.type raw <;> simp

/-- An operand that is coerced to a value is given, and denotes it. -/
theorem given_of_coerce {raw : Option String} {v : Value}
    (h : coerce formats t raw = .ok (some v)) :
    ∃ s, Operand.given? raw = some s ∧ Operand.coerce formats t.type s = .ok (some v) := by
  cases raw with
  | none => cases h
  | some s =>
      have hs := coerce_some_eq_ok.mp h
      exact ⟨s, by simp [Operand.given?, Operand.ne_empty_of_coerce hs], hs⟩

/-- Only an operand that is not given coerces to nothing. -/
theorem not_given_of_coerce {raw : Option String} (h : coerce formats t raw = .ok none) :
    Operand.given? raw = none := by
  cases raw with
  | none => rfl
  | some s =>
      have hs := coerce_some_eq_ok.mp h
      simp [Operand.given?, Operand.eq_empty_of_coerce hs]

/-- The values of candidates are those of the candidates that are not empty, in
order. -/
theorem candidates_eq_ok {raws : List String} {vs : List Value}
    (h : candidates formats t raws = .ok vs) :
    List.Forall₂ (fun s v => Operand.coerce formats t.type s = .ok (some v))
      (Operand.givenAll raws) vs := by
  induction raws generalizing vs with
  | nil =>
      cases h
      exact .nil
  | cons raw raws ih =>
      rw [candidates] at h
      obtain ⟨v, hv, h⟩ := ok_of_bind h
      obtain ⟨ws, hws, h⟩ := ok_of_bind h
      cases h
      have hraw := coerce_some_eq_ok.mp hv
      cases v with
      | none =>
          rw [Operand.givenAll, List.filter_cons_of_neg
            (by simpa using Operand.eq_empty_of_coerce hraw)]
          exact ih hws
      | some v =>
          rw [Operand.givenAll, List.filter_cons_of_pos
            (by simpa using Operand.ne_empty_of_coerce hraw)]
          exact .cons hraw (ih hws)

end Clause
end FieldRules
