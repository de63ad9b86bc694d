import FieldRules.Calendar.Scan
import FieldRules.Proofs.Numerals

/-!
# What reading by a pattern puts down

Reading only adds to what is known of a date-time: a part once known stays as it is, every
item of a pattern adds no other parts than its own, and parts of the clock are numbers that a
clock shows.  Most items put down all their parts; a fraction of a second behind a point may
be missing.

**Results.**
* `Quantity.scan_gains`, `PatternItem.scan_gains`: what one item adds.
* `Pattern.scan_gains`: what a pattern adds.
* `Pattern.proper_of_ofText?`: a pattern that a text denotes fixes at most nine places.
-/

namespace FieldRules

open Text

/-- Whether a clock shows a number for a part.  What does not stand on a clock may be any
number. -/
def Part.Fits : Part → Int → Prop
  | .half, v => 0 ≤ v ∧ v ≤ 1
  | .hourOfHalf, v => 0 ≤ v ∧ v ≤ 11
  | .minute, v => 0 ≤ v ∧ v ≤ 59
  | .second, v => 0 ≤ v ∧ v ≤ 60
  | .nano, v => 0 ≤ v ∧ v ≤ 999999999
  | _, _ => True

namespace Fields

/-- What is known has grown: nothing is lost or changed, only possible parts are new, and the
certain ones are known. -/
structure Gains (possible certain : List Part) (f g : Fields) : Prop where
  kept : ∀ part v, f part = some v → g part = some v
  gained : ∀ part v, g part = some v → f part = some v ∨ part ∈ possible ∧ part.Fits v
  known : ∀ part ∈ certain, (g part).isSome = true

namespace Gains

variable {f g k : Fields} {a b c d : List Part}

theorem refl (f : Fields) : Gains [] [] f f :=
  ⟨fun _ _ h => h, fun _ _ h => .inl h, nofun⟩

theorem isSome (h : Gains a b f g) {part : Part} (hpart : (f part).isSome = true) :
    (g part).isSome = true := by
  obtain ⟨v, hv⟩ := Option.isSome_iff_exists.mp hpart
  rw [h.kept part v hv]
  rfl

theorem trans (h : Gains a b f g) (h' : Gains c d g k) : Gains (a ++ c) (b ++ d) f k where
  kept part v hv := h'.kept part v (h.kept part v hv)
  gained part v hv := by
    rcases h'.gained part v hv with hg | ⟨hpart, hfits⟩
    · rcases h.gained part v hg with hf | ⟨hpart, hfits⟩
      · exact .inl hf
      · exact .inr ⟨List.mem_append_left _ hpart, hfits⟩
    · exact .inr ⟨List.mem_append_right _ hpart, hfits⟩
  known part hpart := by
    rcases List.mem_append.mp hpart with hpart | hpart
    · exact h'.isSome (h.known part hpart)
    · exact h'.known part hpart

theorem mono (h : Gains a b f g) (hpossible : a ⊆ c) (hcertain : d ⊆ b) : Gains c d f g where
  kept := h.kept
  gained part v hv := (h.gained part v hv).imp_right fun hpart => ⟨hpossible hpart.1, hpart.2⟩
  known part hpart := h.known part (hcertain hpart)

end Gains

variable {f g : Fields} {part : Part} {v : Int}

theorem gains_put (h : f.put part v = some g) (hfits : part.Fits v) :
    Gains [part] [part] f g where
  kept q w hw := by
    by_cases hq : q = part
    · subst hq
      obtain ⟨-, rfl⟩ : w = v ∧ f = g := by simpa [put, hw] using h
      exact hw
    · rw [put_of_ne h hq, hw]
  gained q w hw := by
    by_cases hq : q = part
    · subst hq
      rw [put_self h] at hw
      cases hw
      exact .inr ⟨List.mem_singleton_self _, hfits⟩
    · rw [put_of_ne h hq] at hw
      exact .inl hw
  known q hq := by
    rw [List.mem_singleton.mp hq, put_self h]
    rfl

theorem gains_putIn {low high : Int} (h : f.putIn low high part v = some g)
    (hfits : low ≤ v → v ≤ high → part.Fits v) : Gains [part] [part] f g := by
  rw [putIn] at h
  split at h
  next hv => exact gains_put h (hfits hv.1 hv.2)
  next => cases h

theorem gains_putHour (h : f.putHour v = some g) :
    Gains [.half, .hourOfHalf] [.half, .hourOfHalf] f g := by
  rw [putHour] at h
  split at h
  next hv =>
    obtain ⟨k, hk, h⟩ := Option.bind_eq_some_iff.mp h
    exact (gains_put hk (by simp only [Part.Fits]; omega)).trans
      (gains_put h (by simp only [Part.Fits]; omega))
  next => cases h

end Fields

open Fields (Gains)

namespace Quantity

/-- The parts that a number puts down. -/
def parts : Quantity → List Part
  | .year => [.year]
  | .century => [.century]
  | .yearOfCentury => [.yearOfCentury]
  | .weekYear => [.weekYear]
  | .weekYearOfCentury => [.weekYearOfCentury]
  | .quarter => [.quarter]
  | .month => [.month]
  | .day => [.day]
  | .ordinal => [.ordinal]
  | .weekFromSunday => [.weekFromSunday]
  | .weekFromMonday => [.weekFromMonday]
  | .weekOfYear => [.weekOfYear]
  | .daysSinceSunday | .weekdayNumber => [.weekday]
  | .hour => [.half, .hourOfHalf]
  | .hour12 => [.hourOfHalf]
  | .minute => [.minute]
  | .second => [.second]
  | .nanosecond => [.nano]
  | .timestamp => [.timestamp]

/-- Storing a number puts down the parts of its quantity and nothing else. -/
theorem store_gains {q : Quantity} {f g : Fields} {v : Int} (h : q.store f v = some g) :
    Gains q.parts q.parts f g := by
  cases q with
  | hour => exact Fields.gains_putHour h
  | hour12 =>
      rw [store] at h
      split at h
      next => exact Fields.gains_put h (by simp only [Part.Fits]; omega)
      next => cases h
  | daysSinceSunday | weekdayNumber =>
      rw [store] at h
      split at h
      next => exact Fields.gains_put h trivial
      next => cases h
  | minute | second | nanosecond =>
      exact Fields.gains_putIn h fun hlow hhigh => ⟨hlow, hhigh⟩
  | _ => exact Fields.gains_putIn h fun _ _ => trivial

theorem exists_of_scan {q : Quantity} {r r' : Reading} (h : q.scan r = some r') :
    ∃ v rest, q.readSigned? (trimStart r.2) = some (v, rest) ∧ q.store r.1 v = some r'.1 := by
  obtain ⟨⟨v, rest⟩, hread, h⟩ := Option.bind_eq_some_iff.mp h
  obtain ⟨f, hstore, h⟩ := Option.bind_eq_some_iff.mp h
  cases h
  exact ⟨v, rest, hread, hstore⟩

theorem scan_gains {q : Quantity} {r r' : Reading} (h : q.scan r = some r') :
    Gains q.parts q.parts r.1 r'.1 := by
  obtain ⟨v, _, _, hstore⟩ := exists_of_scan h
  exact store_gains hstore

end Quantity

namespace PatternItem

/-- Digits filled up to nine places are less than a second. -/
theorem fits_nano {n places : Nat} (hn : n < 10 ^ places) (hplaces : places ≤ 9) :
    Part.Fits .nano ((n * placeValue (9 - places) : Nat) : Int) := by
  have hlt : n * placeValue (9 - places) < 10 ^ places * placeValue (9 - places) :=
    Nat.mul_lt_mul_of_pos_right hn (placeValue_pos _)
  have hsecond : 10 ^ places * placeValue (9 - places) = 10 ^ 9 := by
    show 10 ^ places * 10 ^ (9 - places) = 10 ^ 9
    rw [← Nat.pow_add, Nat.add_sub_cancel' hplaces]
  rw [hsecond] at hlt
  simp only [Part.Fits]
  omega

theorem value_take_run_lt (k : Nat) (s : List Char) :
    value ((run s).take k) < 10 ^ ((run s).take k).length :=
  value_lt fun c hc => digits_run s c (List.mem_of_mem_take hc)

theorem fits_of_readFraction? {s rest : List Char} {v : Int}
    (h : readFraction? s = some (v, rest)) : Part.Fits .nano v := by
  have hlt := value_take_run_lt 9 s
  rw [List.length_take] at hlt
  rw [readFraction?, readNumber?] at h
  split at h
  next => cases h
  next n _ hread =>
    split at hread
    next => cases hread
    next =>
      cases hread
      cases h
      have hfits := fits_nano hlt (Nat.min_le_left 9 _)
      rwa [Int.natCast_mul] at hfits

theorem fits_of_readPlaces? {places : Nat} {s rest : List Char} {v : Int}
    (hplaces : places ≤ 9) (h : readPlaces? places s = some (v, rest)) :
    Part.Fits .nano v := by
  have hlt := value_take_run_lt places s
  rw [readPlaces?, readExactly?] at h
  split at h
  next hlength =>
    cases h
    rw [hlength] at hlt
    have hfits := fits_nano hlt hplaces
    rwa [Int.natCast_mul] at hfits
  next => cases h

/-- The parts that an item may put down. -/
def possible : PatternItem → List Part
  | .number q => q.parts
  | .monthName _ => [.month]
  | .weekdayName _ => [.weekday]
  | .meridiem => [.half]
  | .fraction | .pointFraction _ | .bareFraction _ => [.nano]
  | .zoneOffset _ | .zone => [.offset]
  | .literal _ | .blank | .zoneName | .timeMark => []

/-- The parts that an item puts down whenever it is read. -/
def certain : PatternItem → List Part
  | .fraction | .pointFraction _ => []
  | item => item.possible

/-- Whether an item fixes at most nine places of a fraction, those of a nanosecond. -/
def Proper : PatternItem → Prop
  | .pointFraction places | .bareFraction places => places ≤ 9
  | _ => True

theorem keep_gains {f : Fields} {part : Part} {n : Int × List Char} {r : Reading}
    (h : keep f part n = some r) (hfits : part.Fits n.1) : Gains [part] [part] f r.1 := by
  obtain ⟨g, hg, rfl⟩ := Option.map_eq_some_iff.mp h
  exact Fields.gains_put hg hfits

theorem fits_of_readMeridiem? {s rest : List Char} {v : Int}
    (h : readMeridiem? s = some (v, rest)) : Part.Fits .half v := by
  rw [readMeridiem?, Option.or_eq_some_iff] at h
  rcases h with h | ⟨-, h⟩
  all_goals
    obtain ⟨s', _, h⟩ := Option.map_eq_some_iff.mp h
    cases h
    simp [Part.Fits]

theorem scan_gains {item : PatternItem} {r r' : Reading} (hproper : item.Proper)
    (h : item.scan r = some r') : Gains item.possible item.certain r.1 r'.1 := by
  cases item with
  | literal _ | timeMark =>
      obtain ⟨s, _, rfl⟩ := Option.map_eq_some_iff.mp h
      exact .refl _
  | blank | zoneName =>
      cases h
      exact .refl _
  | number q => exact q.scan_gains h
  | monthName _ | weekdayName _ | zoneOffset _ | zone =>
      obtain ⟨n, _, h⟩ := Option.bind_eq_some_iff.mp h
      exact keep_gains h trivial
  | meridiem =>
      obtain ⟨n, hn, h⟩ := Option.bind_eq_some_iff.mp h
      exact keep_gains h (fits_of_readMeridiem? hn)
  | bareFraction places =>
      obtain ⟨n, hn, h⟩ := Option.bind_eq_some_iff.mp h
      exact keep_gains h (fits_of_readPlaces? hproper hn)
  | fraction =>
      rw [scan] at h
      split at h
      next =>
        obtain ⟨n, hn, h⟩ := Option.bind_eq_some_iff.mp h
        exact (keep_gains h (fits_of_readFraction? hn)).mono (List.Subset.refl _) nofun
      next =>
        cases h
        exact (Gains.refl _).mono nofun nofun
  | pointFraction places =>
      rw [scan] at h
      split at h
      next =>
        obtain ⟨n, hn, h⟩ := Option.bind_eq_some_iff.mp h
        exact (keep_gains h (fits_of_readPlaces? hproper hn)).mono (List.Subset.refl _) nofun
      next =>
        cases h
        exact (Gains.refl _).mono nofun nofun

end PatternItem

namespace Pattern

/-- The parts that a pattern may put down. -/
def possible (p : Pattern) : List Part :=
  p.flatMap PatternItem.possible

/-- The parts that a pattern puts down whenever a text is read by it. -/
def certain (p : Pattern) : List Part :=
  p.flatMap PatternItem.certain

/-- What is known grows with every item, so after a whole pattern all certain parts of its
items are known. -/
theorem scan_gains {p : Pattern} {r r' : Reading} (hproper : ∀ item ∈ p, item.Proper)
    (h : scan r p = some r') : Gains p.possible p.certain r.1 r'.1 := by
  induction p generalizing r with
  | nil =>
      cases h
      exact .refl _
  | cons item items ih =>
      obtain ⟨hitem, hitems⟩ := List.forall_mem_cons.mp hproper
      obtain ⟨r1, hr1, h⟩ := Option.bind_eq_some_iff.mp h
      exact (PatternItem.scan_gains hitem hr1).trans (ih hitems h)

theorem places?_le {c : Char} {count : Nat} (h : places? c = some count) : count ≤ 9 := by
  unfold places? at h
  split at h <;> cases h <;> decide

theorem proper_of_specifier? {c : Char} {items : Pattern} (h : specifier? c = some items) :
    ∀ item ∈ items, item.Proper := by
  unfold specifier? at h
  split at h <;> cases h <;> simp [clock, instant, PatternItem.Proper]

theorem specifier?_of_padded? {c : Char} {items : Pattern} (h : padded? c = some items) :
    specifier? c = some items := by
  rw [padded?] at h
  split at h
  next hc =>
    cases h
    exact hc
  next => cases h

/-- Whether a position stands behind at most nine places. -/
def Position.Proper : Position → Prop
  | .places _ count => count ≤ 9
  | _ => True

theorem proper_append {items p : Pattern} {rest : Option Pattern}
    (h : rest.map (items ++ ·) = some p) (hitems : ∀ item ∈ items, item.Proper)
    (hrest : ∀ q, rest = some q → ∀ item ∈ q, item.Proper) : ∀ item ∈ p, item.Proper := by
  obtain ⟨q, hq, rfl⟩ := Option.map_eq_some_iff.mp h
  intro item hitem
  rcases List.mem_append.mp hitem with hitem | hitem
  · exact hitems item hitem
  · exact hrest q hq item hitem

theorem proper_cons {item : PatternItem} {p : Pattern} {rest : Option Pattern}
    (h : rest.map (item :: ·) = some p) (hitem : item.Proper)
    (hrest : ∀ q, rest = some q → ∀ item ∈ q, item.Proper) : ∀ item ∈ p, item.Proper := by
  have hitems : ∀ i ∈ [item], i.Proper := List.forall_mem_singleton.mpr hitem
  exact proper_append (by exact h) hitems hrest

/-- The items of a pattern that is read are proper, from any position on. -/
theorem proper_of_read {position : Position} {cs : List Char} {p : Pattern}
    (hposition : position.Proper) (h : read position cs = some p) :
    ∀ item ∈ p, item.Proper := by
  fun_induction read position cs generalizing p with
  | case1 =>
      cases h
      exact nofun
  | case2 | case13 | case17 | case20 => cases h
  | case3 _ ih => exact ih trivial h
  | case5 _ _ _ ih => exact ih trivial h
  | case6 _ _ ih => exact ih trivial h
  | case7 _ _ _ ih => exact ih trivial h
  | case8 _ _ _ _ ih => exact ih trivial h
  | case19 _ _ _ _ _ ih => exact ih trivial h
  | case4 c cs _ ih =>
      refine proper_cons h ?_ fun q => ih trivial
      split <;> trivial
  | case12 _ ih => exact proper_cons h trivial fun q => ih trivial
  | case14 _ ih => exact proper_cons h trivial fun q => ih trivial
  | case18 _ _ ih => exact proper_cons h trivial fun q => ih trivial
  | case16 point count cs ih =>
      refine proper_cons h ?_ fun q => ih trivial
      split <;> exact hposition
  | case9 _ _ _ _ _ _ _ hplaces ih => exact ih (places?_le hplaces) h
  | case10 _ _ _ _ _ _ _ ih =>
      obtain ⟨items, hitems, h⟩ := Option.bind_eq_some_iff.mp h
      exact proper_append h (proper_of_specifier? hitems) fun q => ih trivial
  | case11 _ _ ih =>
      obtain ⟨items, hitems, h⟩ := Option.bind_eq_some_iff.mp h
      exact proper_append h (proper_of_specifier? (specifier?_of_padded? hitems))
        fun q => ih trivial
  | case15 _ _ _ ih =>
      obtain ⟨count, hcount, h⟩ := Option.bind_eq_some_iff.mp h
      exact ih count (places?_le hcount) h

/-- All items of a pattern are proper. -/
theorem proper_of_ofText? {format : String} {p : Pattern} (h : ofText? format = some p) :
    ∀ item ∈ p, item.Proper := by
  have houtside : Position.outside.Proper := trivial
  exact proper_of_read houtside h

end Pattern

end FieldRules
