import FieldRules.Proofs.DayNumbers
import FieldRules.Number.Binary64.Scaled
import FieldRules.Schema.Value
import Mathlib.Algebra.Order.Field.Basic
import Mathlib.Data.Rat.Cast.Order

/-!
# Numbers behind the orders

Decimals and floats are compared by their digits and bits, and date-times part by part.  Each of
these orders is that of numbers.  A decimal denotes a rational number, whatever its scale.  A float
that is a number denotes one too: its magnitude bits count the numbers from zero upwards, so that
a greater magnitude denotes a greater number, also where the exponent changes.  A date-time stands
for the nanoseconds since the epoch, counted with room for a leap second in every second.

**Results.**
* `Decimal.compare_eq_number`: decimals are ordered as the numbers that they denote.
* `Binary64.compare_key`: so are floats.
* `DateTime.compare_eq_rank`: date-times are ordered as their nanoseconds.
-/

namespace FieldRules

/-- An order is kept by a function that keeps what is less. -/
theorem compare_map {α : Type} [LinearOrder α] {f : α → ℚ} (hf : StrictMono f) (x y : α) :
    Ord.compare (f x) (f y) = Ord.compare x y := by
  rcases lt_trichotomy x y with h | h | h
  · rw [compare_lt_iff_lt.mpr h, compare_lt_iff_lt.mpr (hf h)]
  · rw [compare_eq_iff_eq.mpr h, compare_eq_iff_eq.mpr (congrArg f h)]
  · rw [compare_gt_iff_gt.mpr h, compare_gt_iff_gt.mpr (hf h)]

theorem compare_cast (m n : Int) : Ord.compare (m : ℚ) (n : ℚ) = Ord.compare m n :=
  compare_map Int.cast_strictMono m n

/-- The number that a decimal denotes. -/
def Decimal.number (d : Decimal) : ℚ := d.signed / 10 ^ d.scale

/-- Decimals are ordered as the numbers that they denote. -/
theorem Decimal.compare_eq_number (d e : Decimal) :
    d.compare e = Ord.compare d.number e.number := by
  have hplace : ∀ k : Nat, ((Text.placeValue k : Int) : ℚ) = 10 ^ k := fun k => by
    have hpower : Text.placeValue k = 10 ^ k := rfl
    rw [hpower]
    push_cast
    rfl
  have hten : ∀ k : Nat, (0 : ℚ) < 10 ^ k := fun k => pow_pos (by norm_num) k
  have hd : (d.signed : ℚ) * 10 ^ e.scale = d.number * (10 ^ d.scale * 10 ^ e.scale) := by
    rw [number, ← mul_assoc, div_mul_cancel₀ _ (hten d.scale).ne']
  have he : (e.signed : ℚ) * 10 ^ d.scale = e.number * (10 ^ d.scale * 10 ^ e.scale) := by
    rw [number, mul_comm (10 ^ d.scale), ← mul_assoc, div_mul_cancel₀ _ (hten e.scale).ne']
  have hmono : StrictMono fun x : ℚ => x * (10 ^ d.scale * 10 ^ e.scale) := fun _ _ h =>
    mul_lt_mul_of_pos_right h (mul_pos (hten d.scale) (hten e.scale))
  rw [compare, ← compare_cast, Int.cast_mul, Int.cast_mul, hplace, hplace, hd, he]
  exact compare_map hmono d.number e.number

namespace Binary64

/-- What a magnitude denotes, as a multiple of the least positive number. -/
def unitsOf (magnitude : Nat) : Nat :=
  if magnitude / hiddenBit = 0 then magnitude % hiddenBit
  else (magnitude % hiddenBit + hiddenBit) * 2 ^ (magnitude / hiddenBit - 1)

/-- The number that the bits denote, if they denote one; an infinity counts as the power of two
behind the greatest number. -/
def number (x : Binary64) : ℚ :=
  (if x.negative then -1 else 1) * x.units / 2 ^ 1074

/-- Greater bits denote a greater number: an exponent begins where the one before it
ends. -/
theorem unitsOf_strictMono : StrictMono unitsOf := by
  intro m n h
  have hbit : 0 < hiddenBit := by decide
  have hm := Nat.mod_lt m hbit
  have hn := Nat.mod_lt n hbit
  have hmdiv := Nat.div_add_mod m hiddenBit
  have hndiv := Nat.div_add_mod n hiddenBit
  have hle : m / hiddenBit ≤ n / hiddenBit := Nat.div_le_div_right h.le
  unfold unitsOf
  generalize m / hiddenBit = d at *
  generalize n / hiddenBit = e at *
  generalize m % hiddenBit = f at *
  generalize n % hiddenBit = g at *
  rcases hle.eq_or_lt with rfl | hlt
  · have hfg : f < g := by omega
    split
    · exact hfg
    · exact Nat.mul_lt_mul_of_pos_right (by omega) (Nat.two_pow_pos _)
  · rw [if_neg (by omega : ¬ e = 0)]
    split
    · calc f < g + hiddenBit := by omega
        _ ≤ (g + hiddenBit) * 2 ^ (e - 1) := Nat.le_mul_of_pos_right _ (Nat.two_pow_pos _)
    · calc (f + hiddenBit) * 2 ^ (d - 1)
          < 2 * hiddenBit * 2 ^ (d - 1) :=
            Nat.mul_lt_mul_of_pos_right (by omega) (Nat.two_pow_pos _)
        _ = hiddenBit * 2 ^ (d - 1 + 1) := by rw [pow_succ', Nat.mul_left_comm, Nat.mul_assoc]
        _ ≤ hiddenBit * 2 ^ (e - 1) :=
            Nat.mul_le_mul_left _ (Nat.pow_le_pow_right (by decide) (by omega))
        _ ≤ (g + hiddenBit) * 2 ^ (e - 1) := Nat.mul_le_mul_right _ (Nat.le_add_left _ _)

/-- The number of a key. -/
def signedUnits (key : Int) : Int :=
  if key < 0 then -(unitsOf key.natAbs : Int) else unitsOf key.natAbs

theorem signedUnits_lt {j k : Int} (h : j < k) : signedUnits j < signedUnits k := by
  have hzero : unitsOf 0 = 0 := rfl
  have hpos : ∀ {m : Nat}, 0 < m → 0 < unitsOf m := fun hm => hzero ▸ unitsOf_strictMono hm
  unfold signedUnits
  split
  next hj =>
    have hunits := hpos (Int.natAbs_pos.mpr hj.ne)
    split
    next hk =>
      have hless : unitsOf k.natAbs < unitsOf j.natAbs := unitsOf_strictMono (by omega)
      omega
    next => omega
  next hj =>
    rw [if_neg (by omega : ¬ k < 0)]
    exact Int.ofNat_lt.mpr (unitsOf_strictMono (by omega))

/-- The number of a float is that of its key, which is one for the two zeros. -/
theorem number_eq (x : Binary64) : x.number = (signedUnits x.key : ℚ) / 2 ^ 1074 := by
  have hunits : x.units = unitsOf x.magnitude := by
    simp only [units, significand, unitsOf, Nat.shiftLeft_eq]
    split <;> simp
  have hsigned : signedUnits x.key = (if x.negative then -1 else 1) * unitsOf x.magnitude := by
    unfold key signedUnits
    cases x.negative with
    | false => simp
    | true =>
        have hzero : x.magnitude = 0 → unitsOf x.magnitude = 0 := fun h => by
          rw [h]
          rfl
        simpa using hzero
  rw [number, hunits, hsigned]
  push_cast
  rfl

/-- Floats are ordered as the numbers that they denote. -/
theorem compare_key (x y : Binary64) :
    Ord.compare x.key y.key = Ord.compare x.number y.number := by
  rw [number_eq, number_eq]
  have hmono : StrictMono fun k : Int => (signedUnits k : ℚ) / 2 ^ 1074 := fun j k h =>
    div_lt_div_of_pos_right (Int.cast_lt.mpr (signedUnits_lt h)) (pow_pos (by norm_num) _)
  exact (compare_map hmono x.key y.key).symm

theorem key_eq_of_number {x y : Binary64} (h : x.number = y.number) : x.key = y.key := by
  have hcompare := compare_key x y
  rw [h, compare_eq_iff_eq.mpr rfl] at hcompare
  exact compare_eq_iff_eq.mp hcompare

/-- Numbers with one key are the same, or both zero. -/
theorem eq_of_key {x y : Binary64} (h : x.key = y.key) :
    x = y ∨ x.magnitude = 0 ∧ y.magnitude = 0 := by
  have hx := x.bits.toNat_lt
  have hy := y.bits.toNat_lt
  have hsign : ∀ z : Binary64, z.negative = true ↔ signBit ≤ z.bits.toNat :=
    fun z => decide_eq_true_iff
  by_cases hzero : x.magnitude = 0 ∧ y.magnitude = 0
  · exact .inr hzero
  · refine .inl (congrArg mk (UInt64.toNat_inj.mp ?_))
    simp only [key, hsign, magnitude, signBit] at h hzero
    split at h <;> split at h <;> omega

end Binary64

/-- The nanoseconds from the epoch to a date-time when every second has room for a leap
second. -/
def DateTime.rank (t : DateTime) : Int := t.timestamp * (2 * nanosPerSecond) + t.time.nano

theorem Date.before_of_compare {a b : Date} (h : a.compare b = .lt) : a.Before b := by
  simpa only [compare, Ordering.then_eq_lt, compare_lt_iff_lt, compare_eq_iff_eq, Before] using h

theorem Date.eq_of_compare {a b : Date} (h : a.compare b = .eq) : a = b := by
  simp only [compare, Ordering.then_eq_eq, compare_eq_iff_eq] at h
  exact eq_of_parts h.1 h.2.1 h.2.2

namespace DateTime

/-- The rank tells timestamp and fraction, in this order. -/
theorem rank_lt_iff {t u : DateTime} :
    t.rank < u.rank ↔
      t.timestamp < u.timestamp ∨ t.timestamp = u.timestamp ∧ t.time.nano < u.time.nano := by
  have ht := t.time.nano_lt
  have hu := u.time.nano_lt
  simp only [rank, nanosPerSecond] at ht hu ⊢
  omega

/-- An earlier date-time has a lower rank. -/
theorem rank_lt_of_compare {t u : DateTime} (h : t.compare u = .lt) : t.rank < u.rank := by
  have ht := t.time.second_lt
  rw [rank_lt_iff, timestamp, timestamp]
  simp only [compare, TimeOfDay.compare, Ordering.then_eq_lt, compare_lt_iff_lt,
    compare_eq_iff_eq] at h
  rcases h with hdate | ⟨hdate, htime⟩
  · have hnumber := Date.number_lt (Date.before_of_compare hdate)
    omega
  · rw [Date.eq_of_compare hdate]
    omega

theorem eq_of_compare {t u : DateTime} (h : t.compare u = .eq) : t = u := by
  simp only [compare, TimeOfDay.compare, Ordering.then_eq_eq, compare_eq_iff_eq] at h
  have hdate := Date.eq_of_compare h.1
  have htime := TimeOfDay.eq_of_parts h.2.1 h.2.2
  cases t
  cases u
  cases hdate
  cases htime
  rfl

/-- Date-times are ordered as their ranks, a leap second behind its minute's last second. -/
theorem compare_eq_rank (t u : DateTime) : t.compare u = Ord.compare t.rank u.rank := by
  cases h : t.compare u with
  | lt => exact (compare_lt_iff_lt.mpr (rank_lt_of_compare h)).symm
  | eq => exact (compare_eq_iff_eq.mpr (congrArg rank (eq_of_compare h))).symm
  | gt =>
      have hswap : u.compare t = .lt := by
        have hvalues := Value.order?_swap (.dateTime t) (.dateTime u)
        rw [Value.order?, Value.order?, Option.map_some, h] at hvalues
        exact Option.some.inj hvalues
      exact (compare_gt_iff_gt.mpr (rank_lt_of_compare hswap)).symm

theorem rank_injective {t u : DateTime} (h : t.rank = u.rank) : t = u :=
  eq_of_compare (by rw [compare_eq_rank, h, compare_eq_iff_eq])

end DateTime

end FieldRules
