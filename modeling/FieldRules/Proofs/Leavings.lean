import FieldRules.Proofs.DateTexts

/-!
# What a pattern leaves of a text

A pattern reads the front of a text and leaves the rest.  What it leaves depends on the text
alone, not on what is known before: the parts that are known only decide whether the reading goes
on.  So a text is split by a pattern in one way, and two patterns that begin alike leave the same
behind their common beginning.

**Results.**
* `PatternItem.sameRest_scan`: what an item leaves depends on the text alone.
* `Pattern.Leaves.unique`: a pattern splits a text in one way.
* `Pattern.Leaves.number`: what stands where a number is read.
* `Pattern.Leaves.behind_number`, `Pattern.Leaves.behind_literal`: what a pattern makes of the rest.
-/

namespace FieldRules

open Text

namespace Text

theorem trimStart_of_readExactly? {count n : Nat} {s rest : List Char} (hpos : 0 < count)
    (h : readExactly? count s = some (n, rest)) : trimStart s = s := by
  obtain ⟨ds, rfl, hds, hlength⟩ := readExactly?_eq_some h
  exact trimStart_digits hds (List.ne_nil_of_length_pos (by omega)) rest

end Text

namespace Quantity

variable {q : Quantity} {s rest : List Char}

theorem readSigned?_eq_some {v : Int} (h : q.readSigned? s = some (v, rest)) :
    (∃ ds, s = ds ++ rest ∧ Digits ds ∧ ds ≠ []) ∨
      q.isSigned = true ∧ ∃ c t, s = c :: t ∧ (c = '-' ∨ c = '+') := by
  simp only [readSigned?] at h
  split at h
  next r hsigned => exact .inr ⟨hsigned, '-', r, rfl, .inl rfl⟩
  next r hsigned => exact .inr ⟨hsigned, '+', r, rfl, .inr rfl⟩
  next =>
    obtain ⟨⟨n, t⟩, hn, h⟩ := Option.map_eq_some_iff.mp h
    cases h
    refine .inl ?_
    split at hn
    next => exact readNumber?_eq_some hn
    next => exact readRun?_eq_some hn

end Quantity

/-- Two readings that succeed leave the same text. -/
def SameRest (o o' : Option Reading) : Prop :=
  ∀ r r', o = some r → o' = some r' → r.2 = r'.2

namespace SameRest

theorem bind {o o' : Option Reading} {k k' : Reading → Option Reading} (h : SameRest o o')
    (hk : ∀ f f' s, SameRest (k (f, s)) (k' (f', s))) : SameRest (o.bind k) (o'.bind k') := by
  intro r r' hr hr'
  obtain ⟨⟨f, s⟩, ho, hr⟩ := Option.bind_eq_some_iff.mp hr
  obtain ⟨⟨f', s'⟩, ho', hr'⟩ := Option.bind_eq_some_iff.mp hr'
  obtain rfl : s = s' := h _ _ ho ho'
  exact hk f f' s r r' hr hr'

/-- Both readings go on with the same result of a reader. -/
theorem bind_left {α : Type} {o : Option α} {k k' : α → Option Reading}
    (hk : ∀ a, SameRest (k a) (k' a)) : SameRest (o.bind k) (o.bind k') := by
  intro r r' hr hr'
  obtain ⟨a, ho, hr⟩ := Option.bind_eq_some_iff.mp hr
  obtain ⟨a', ho', hr'⟩ := Option.bind_eq_some_iff.mp hr'
  obtain rfl : a = a' := Option.some.inj (ho.symm.trans ho')
  exact hk a r r' hr hr'

end SameRest

theorem Quantity.sameRest_scan (q : Quantity) (f g : Fields) (s : List Char) :
    SameRest (q.scan (f, s)) (q.scan (g, s)) := by
  refine SameRest.bind_left fun n => ?_
  rintro r r' h h'
  obtain ⟨k, -, h⟩ := Option.bind_eq_some_iff.mp h
  obtain ⟨k', -, h'⟩ := Option.bind_eq_some_iff.mp h'
  cases h
  cases h'
  rfl

namespace PatternItem

theorem sameRest_keep (f g : Fields) (part : Part) (n : Int × List Char) :
    SameRest (keep f part n) (keep g part n) := by
  rintro r r' h h'
  obtain ⟨k, -, rfl⟩ := Option.map_eq_some_iff.mp h
  obtain ⟨k', -, rfl⟩ := Option.map_eq_some_iff.mp h'
  rfl

theorem sameRest_cut (o : Option (List Char)) (f g : Fields) :
    SameRest (o.map fun s => (f, s)) (o.map fun s => (g, s)) := by
  rintro r r' h h'
  obtain ⟨s, hs, rfl⟩ := Option.map_eq_some_iff.mp h
  obtain ⟨s', hs', rfl⟩ := Option.map_eq_some_iff.mp h'
  exact Option.some.inj (hs.symm.trans hs')

theorem cut?_eq_some {c : Char} {s t : List Char} (h : cut? c s = some t) : s = c :: t := by
  cases s with
  | nil => cases h
  | cons d ds =>
      rw [cut?] at h
      split at h
      next hd =>
        cases h
        rw [hd]
      next => cases h

/-- What stands behind a point is read, and a text without a point is left as it is. -/
theorem sameRest_behindPoint (read : List Char → Option (Int × List Char)) (f g : Fields)
    (s : List Char) :
    SameRest
      (match s with
        | '.' :: t => (read t).bind (keep f .nano)
        | _ => some (f, s))
      (match s with
        | '.' :: t => (read t).bind (keep g .nano)
        | _ => some (g, s)) := by
  split
  next t => exact SameRest.bind_left fun n => sameRest_keep f g .nano n
  next => exact sameRest_cut (some s) f g

/-- What an item leaves depends on the text alone. -/
theorem sameRest_scan (item : PatternItem) (f g : Fields) (s : List Char) :
    SameRest (item.scan (f, s)) (item.scan (g, s)) := by
  cases item with
  | literal c => exact sameRest_cut (cut? c s) f g
  | blank => exact sameRest_cut (some (trimStart s)) f g
  | zoneName => exact sameRest_cut (some (s.dropWhile fun c => !isBlank c)) f g
  | number q => exact q.sameRest_scan f g s
  | monthName long =>
      exact SameRest.bind_left fun n => sameRest_keep f g .month (n.1 + 1, n.2)
  | weekdayName long => exact SameRest.bind_left fun n => sameRest_keep f g .weekday (n.1, n.2)
  | meridiem => exact SameRest.bind_left fun n => sameRest_keep f g .half n
  | fraction => exact sameRest_behindPoint readFraction? f g s
  | pointFraction places => exact sameRest_behindPoint (readPlaces? places) f g s
  | bareFraction places => exact SameRest.bind_left fun n => sameRest_keep f g .nano n
  | zoneOffset lenient => exact SameRest.bind_left fun n => sameRest_keep f g .offset n
  | timeMark => exact sameRest_cut (cutTimeMark? s) f g
  | zone => exact SameRest.bind_left fun n => sameRest_keep f g .offset n

end PatternItem

namespace Pattern

/-- What a pattern leaves of a text does not depend on the parts that are known. -/
theorem sameRest_scan (p : Pattern) (f g : Fields) (s : List Char) :
    SameRest (scan (f, s) p) (scan (g, s) p) := by
  induction p generalizing f g s with
  | nil => exact PatternItem.sameRest_cut (some s) f g
  | cons item items ih => exact (item.sameRest_scan f g s).bind ih

/-- Whether a pattern can read the front of a text so that a rest is left. -/
def Leaves (p : Pattern) (s rest : List Char) : Prop :=
  ∃ f g, scan (f, s) p = some (g, rest)

variable {p items : Pattern} {s t rest : List Char}

/-- A pattern splits a text in one way. -/
theorem Leaves.unique (h : Leaves p s rest) (h' : Leaves p s t) : rest = t := by
  obtain ⟨f, _, h⟩ := h
  obtain ⟨g, _, h'⟩ := h'
  exact sameRest_scan p f g s _ _ h h'

theorem scan_append (r : Reading) (p q : Pattern) :
    scan r (p ++ q) = (scan r p).bind fun r => scan r q := by
  induction p generalizing r with
  | nil => rfl
  | cons item items ih =>
      rw [List.cons_append, scan_cons, scan_cons, Option.bind_assoc]
      exact congrArg _ (funext ih)

/-- Two patterns in a row leave what the second leaves behind the first. -/
theorem Leaves.append {q : Pattern} (h : Leaves (p ++ q) s rest) :
    ∃ t, Leaves p s t ∧ Leaves q t rest := by
  obtain ⟨f, g, h⟩ := h
  rw [scan_append] at h
  obtain ⟨⟨k, t⟩, hp, hq⟩ := Option.bind_eq_some_iff.mp h
  exact ⟨t, ⟨f, k, hp⟩, k, g, hq⟩

theorem Leaves.cons {item : PatternItem} (h : Leaves (item :: items) s rest) :
    ∃ t, Leaves [item] s t ∧ Leaves items t rest :=
  Leaves.append h

theorem Leaves.of_item {item : PatternItem} (h : Leaves [item] s rest) :
    ∃ f g, item.scan (f, s) = some (g, rest) := by
  obtain ⟨f, g, h⟩ := h
  obtain ⟨r, hr, h⟩ := Option.bind_eq_some_iff.mp h
  cases h
  exact ⟨f, g, hr⟩

/-- Behind what a pattern leaves, the rest of a longer pattern goes on. -/
theorem Leaves.behind {q : Pattern} (hp : Leaves p s t) (h : Leaves (p ++ q) s rest) :
    Leaves q t rest := by
  obtain ⟨u, hp', hq⟩ := h.append
  exact hp.unique hp' ▸ hq

theorem Leaves.eq_of_nil (h : Leaves [] s rest) : rest = s := by
  obtain ⟨f, g, h⟩ := h
  cases h
  rfl

theorem Leaves.literal {c : Char} (h : Leaves [.literal c] s rest) : s = c :: rest := by
  obtain ⟨f, g, h⟩ := h.of_item
  obtain ⟨t, ht, h⟩ := Option.map_eq_some_iff.mp h
  cases h
  exact PatternItem.cut?_eq_some ht

theorem Leaves.blank (h : Leaves [.blank] s rest) : rest = trimStart s := by
  obtain ⟨f, g, h⟩ := h.of_item
  cases h
  rfl

/-- Behind any blanks, a number stands as digits in front of the rest, or it has a sign. -/
theorem Leaves.number {q : Quantity} (h : Leaves [.number q] s rest) :
    (∃ ds, trimStart s = ds ++ rest ∧ Digits ds ∧ ds ≠ []) ∨
      q.isSigned = true ∧ ∃ c t, trimStart s = c :: t ∧ (c = '-' ∨ c = '+') := by
  obtain ⟨f, g, h⟩ := h.of_item
  obtain ⟨⟨v, t⟩, hread, h⟩ := Option.bind_eq_some_iff.mp h
  obtain ⟨k, -, h⟩ := Option.bind_eq_some_iff.mp h
  cases h
  exact Quantity.readSigned?_eq_some hread

/-- Behind as many digits as a number may have, a pattern goes on. -/
theorem Leaves.behind_number {q : Quantity} {width n : Nat}
    (h : Leaves (.number q :: items) s rest) (hwidth : q.width = some width) (hpos : 0 < width)
    (hread : readExactly? width s = some (n, t)) : Leaves items t rest := by
  obtain ⟨u, hnumber, h⟩ := h.cons
  obtain ⟨f, g, hscan⟩ := hnumber.of_item
  have hsigned := Quantity.readSigned?_of_readNumber? hwidth
    (readNumber?_of_readExactly? hpos hread)
  rw [← trimStart_of_readExactly? hpos hread] at hsigned
  rw [PatternItem.scan, Quantity.scan_of_read hsigned] at hscan
  obtain ⟨k, -, hk⟩ := Option.map_eq_some_iff.mp hscan
  cases hk
  exact h

/-- Behind a character that stands for itself, a pattern goes on. -/
theorem Leaves.behind_literal {c : Char} (h : Leaves (.literal c :: items) s rest)
    (hcut : PatternItem.cut? c s = some t) : Leaves items t rest := by
  obtain ⟨u, hliteral, hrest⟩ := h.cons
  obtain rfl := hliteral.literal
  cases PatternItem.cut?_eq_some hcut
  exact hrest

/-- A pattern that reads a text leaves nothing of it. -/
theorem leaves_of_fields? {f : Fields} (h : p.fields? s = some f) : Leaves p s [] := by
  rw [fields?] at h
  split at h
  next g hscan => exact ⟨Fields.empty, g, hscan⟩
  next => cases h

end Pattern

end FieldRules
