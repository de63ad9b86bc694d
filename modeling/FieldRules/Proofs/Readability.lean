import FieldRules.Proofs.DateTexts
import FieldRules.Proofs.Typing

/-!
# What the text of a predicate tells

The text of an expression has parentheses around every part, so that two texts can be
compared from the left.  A part that begins with two parentheses is a connective and any
other a comparison; the field of a comparison ends with the first blank, and so does the
sign of the comparison.  The field tells the type of the constant, and the type tells how
the constant is written and where it ends: a text at its second quote, anything else at
the next parenthesis.

Whole floats are written like integers without an end that is different, and a text may
hold quotes: schemas with floats, and constants with quotes, are left out.

**Results.**
* `Integer.display_injective`, `Decimal.display_injective`: numbers are told by their texts.
* `Value.display_append_inj`: a constant ends where it ends.
* `Expr.ends_of_legible`: so does an expression.
* `Predicate.expr_eq_of_display_eq`: the text of a predicate tells its expression.
-/

namespace FieldRules

open Text

namespace Text

/-- Whether a character may stand in a word: a letter, a digit or an underscore.  All
characters beyond ASCII are taken for letters. -/
def isWordChar (c : Char) : Bool :=
  c.isAlphanum || c == '_' || decide (128 ≤ c.toNat)

/-- A text is a word if it is not empty and has no other characters. -/
def IsWord (s : String) : Prop :=
  s ≠ "" ∧ ∀ c ∈ s.toList, isWordChar c = true

instance (s : String) : Decidable (IsWord s) :=
  decidable_of_iff (s ≠ "" ∧ s.toList.all isWordChar = true) (by simp [IsWord])

theorem IsWord.notMem {s : String} (h : IsWord s) {c : Char} (hc : isWordChar c = false) :
    c ∉ s.toList := by
  intro hmem
  simp [h.2 c hmem] at hc

/-- What stands before the first mark is told by the whole. -/
theorem append_mark_inj {mark : Char} {a b x y : List Char} (ha : mark ∉ a) (hb : mark ∉ b)
    (h : a ++ mark :: x = b ++ mark :: y) : a = b ∧ x = y := by
  induction a generalizing b with
  | nil =>
      cases b with
      | nil => exact ⟨rfl, (List.cons.inj h).2⟩
      | cons d b =>
          obtain rfl : mark = d := (List.cons.inj h).1
          exact absurd List.mem_cons_self hb
  | cons c a ih =>
      cases b with
      | nil =>
          obtain rfl : c = mark := (List.cons.inj h).1
          exact absurd List.mem_cons_self ha
      | cons d b =>
          obtain ⟨rfl, hrest⟩ := List.cons.inj h
          have hab := ih (fun hmem => ha (List.mem_cons_of_mem _ hmem))
            (fun hmem => hb (List.mem_cons_of_mem _ hmem)) hrest
          exact ⟨congrArg (c :: ·) hab.1, hab.2⟩

end Text

namespace Integer

theorem mem_display {n : Int} {c : Char} (h : c ∈ display n) : c.isDigit = true ∨ c = '-' := by
  rw [display] at h
  split at h
  · rcases List.mem_cons.mp h with rfl | h
    · exact .inr rfl
    · exact .inl (digits_numeral _ c h)
  · exact .inl (digits_numeral _ c h)

/-- An integer is told by its text. -/
theorem display_injective : Function.Injective display := by
  have hsign : ∀ {m n : Nat}, '-' :: numeral m ≠ numeral n := by
    intro m n h
    have hmem : '-' ∈ numeral n := h ▸ List.mem_cons_self
    exact (digits_numeral n).notMem (by decide) hmem
  intro m n h
  simp only [display] at h
  split at h <;> split at h
  · have habs := numeral_inj (List.cons.inj h).2
    omega
  · exact absurd h hsign
  · exact absurd h.symm hsign
  · have habs := numeral_inj h
    omega

end Integer

namespace Decimal

/-- The places of a decimal behind its point, with the point. -/
def placesText (d : Decimal) : List Char :=
  if d.scale = 0 then []
  else '.' :: padded d.scale (d.coefficient % placeValue d.scale)

theorem magnitudeText_eq (d : Decimal) :
    d.magnitudeText = numeral (d.coefficient / placeValue d.scale) ++ d.placesText := by
  rw [magnitudeText, placesText]
  split
  next h => simp [h]
  next => rfl

theorem endsRun_placesText (d : Decimal) : EndsRun d.placesText := by
  rw [placesText]
  split
  · exact endsRun_nil
  · exact endsRun_cons rfl

/-- The places behind the point tell the scale. -/
theorem placesText_inj {a b : Decimal} (h : a.placesText = b.placesText) :
    a.scale = b.scale ∧
      a.coefficient % placeValue a.scale = b.coefficient % placeValue b.scale := by
  have hlength : ∀ d : Decimal, d.scale ≠ 0 →
      (padded d.scale (d.coefficient % placeValue d.scale)).length = d.scale := fun d hd =>
    length_padded (Nat.pos_of_ne_zero hd) (Nat.mod_lt _ (placeValue_pos d.scale))
  simp only [placesText] at h
  split at h <;> split at h
  next ha hb => simp [ha, hb, Nat.mod_one]
  next => cases h
  next => cases h
  next ha hb =>
    have hplaces := (List.cons.inj h).2
    have hscale : a.scale = b.scale := by
      rw [← hlength a ha, hplaces, hlength b hb]
    rw [hscale] at hplaces
    refine ⟨hscale, ?_⟩
    rw [hscale]
    exact padded_inj hplaces

/-- Different magnitudes of decimals have different texts. -/
theorem magnitudeText_inj {a b : Decimal} (h : a.magnitudeText = b.magnitudeText) :
    a.coefficient = b.coefficient ∧ a.scale = b.scale := by
  rw [magnitudeText_eq, magnitudeText_eq] at h
  obtain ⟨hwhole, hplaces⟩ := digits_append_inj (digits_numeral _) (digits_numeral _)
    a.endsRun_placesText b.endsRun_placesText h
  obtain ⟨hscale, hrest⟩ := placesText_inj hplaces
  have hquotient := numeral_inj hwhole
  rw [hscale] at hquotient hrest
  refine ⟨?_, hscale⟩
  rw [← Nat.div_add_mod a.coefficient (placeValue b.scale), hquotient, hrest,
    Nat.div_add_mod]

theorem mem_magnitudeText {d : Decimal} {c : Char} (h : c ∈ d.magnitudeText) :
    c.isDigit = true ∨ c = '.' := by
  rw [magnitudeText_eq, List.mem_append, placesText] at h
  rcases h with h | h
  · exact .inl (digits_numeral _ c h)
  · split at h
    · cases h
    · rcases List.mem_cons.mp h with rfl | h
      · exact .inr rfl
      · exact .inl (digits_padded _ _ c h)

theorem mem_display {d : Decimal} {c : Char} (h : c ∈ d.display) :
    c.isDigit = true ∨ c = '.' ∨ c = '-' := by
  rw [display] at h
  split at h
  · rcases List.mem_cons.mp h with rfl | h
    · simp
    · have := mem_magnitudeText h
      tauto
  · have := mem_magnitudeText h
    tauto

/-- A decimal is told by its text, with its scale and the sign of a zero. -/
theorem display_injective : Function.Injective display := by
  have hsign : ∀ {a b : Decimal}, '-' :: a.magnitudeText ≠ b.magnitudeText := by
    intro a b h
    have hmem : '-' ∈ b.magnitudeText := h ▸ List.mem_cons_self
    have := mem_magnitudeText hmem
    simp at this
  intro a b h
  have hparts : a.negative = b.negative ∧ a.magnitudeText = b.magnitudeText := by
    simp only [display] at h
    split at h <;> split at h
    next ha hb => exact ⟨ha.trans hb.symm, (List.cons.inj h).2⟩
    next => exact absurd h hsign
    next => exact absurd h.symm hsign
    next ha hb => exact ⟨by simp_all, h⟩
  obtain ⟨hcoefficient, hscale⟩ := magnitudeText_inj hparts.2
  cases a
  cases b
  simp_all

end Decimal

/-- The names of a schema are words, and no field holds floats. -/
structure Schema.Legible {ρ : Type} (schema : Schema ρ) : Prop where
  types : ∀ f ∈ schema.fields, f.type ≠ .float
  names : ∀ f ∈ schema.fields, IsWord f.name
  members : ∀ f ∈ schema.fields, ∀ e, f.type = .enum e → ∀ m ∈ e.members, IsWord m

/-- A constant is legible: it is no float, a text holds no quote and a member is a word. -/
def Value.Legible : Value → Prop
  | .float _ => False
  | .text s => '"' ∉ s.toList
  | .member name => IsWord name
  | _ => True

namespace Value

/-- The text of a legible constant holds no closing parenthesis, unless it is a text. -/
theorem notMem_display {v : Value} (h : v.Legible) (htext : ∀ s, v ≠ .text s) :
    ')' ∉ v.display.toList := by
  intro hmem
  cases v with
  | int n =>
      rw [display, String.toList_ofList] at hmem
      have := Integer.mem_display hmem
      simp at this
  | float x => exact h
  | decimal d =>
      rw [display, String.toList_ofList] at hmem
      have := Decimal.mem_display hmem
      simp at this
  | bool b => cases b <;> simp [display, boolText] at hmem
  | dateTime t =>
      rw [display, String.toList_ofList, DateTime.display, List.mem_append, List.mem_cons] at hmem
      rcases hmem with hmem | hmem | hmem
      · have := DateTime.mem_display_date hmem
        simp at this
      · simp at hmem
      · have := DateTime.mem_display_time hmem
        simp at this
  | text s => exact htext s rfl
  | member name => exact h.notMem (by decide) hmem

/-- A value of a type is what a field of the type holds. -/
theorem exists_carrier {type : FieldType} {v : Value} (h : type.declares v = true) :
    ∃ x : type.Carrier, v = type.value x := by
  have hadmits := FieldType.admits_of_declares h
  cases type <;> cases v <;> first | exact ⟨_, rfl⟩ | exact Bool.noConfusion hadmits

theorem toList_display_text (s : String) :
    (Value.text s).display.toList = '"' :: (s.toList ++ ['"']) := by
  simp [display]

theorem display_text_inj {s t : String} (h : (Value.text s).display = (Value.text t).display) :
    s = t := by
  have hquoted := congrArg String.toList h
  rw [toList_display_text, toList_display_text] at hquoted
  exact String.toList_injective (List.append_cancel_right (List.cons.inj hquoted).2)

/-- Constants of one type are told by their texts, unless they are floats. -/
theorem eq_of_display_eq {type : FieldType} {v w : Value} (hv : type.declares v = true)
    (hw : type.declares w = true) (hfloat : type ≠ .float) (h : v.display = w.display) :
    v = w := by
  obtain ⟨x, rfl⟩ := exists_carrier hv
  obtain ⟨y, rfl⟩ := exists_carrier hw
  cases type with
  | int =>
      have hxy := Int64.toInt_inj.mp (Integer.display_injective (String.ofList_injective h))
      rw [hxy]
  | float => exact absurd rfl hfloat
  | decimal => rw [Decimal.display_injective (String.ofList_injective h)]
  | bool => cases x <;> cases y <;> first | rfl | exact absurd h (by decide)
  | dateTime => rw [DateTime.display_injective (String.ofList_injective h)]
  | text =>
      have hxy : x = y := display_text_inj h
      rw [hxy]
  | enum e => rw [show x = y from h]

/-- A legible constant ends where it ends: before the parenthesis that follows it. -/
theorem display_append_inj {type : FieldType} {v w : Value} {x y : List Char}
    (hv : type.declares v = true) (hw : type.declares w = true)
    (hvl : v.Legible) (hwl : w.Legible)
    (h : v.display.toList ++ ')' :: x = w.display.toList ++ ')' :: y) : v = w ∧ x = y := by
  have hfloat : type ≠ .float := by
    rintro rfl
    obtain ⟨z, rfl⟩ := exists_carrier hv
    exact hvl
  by_cases htext : type = .text
  · subst htext
    obtain ⟨s, rfl⟩ : ∃ s, v = .text s := exists_carrier hv
    obtain ⟨t, rfl⟩ : ∃ t, w = .text t := exists_carrier hw
    simp only [toList_display_text, List.cons_append, List.append_assoc, List.nil_append] at h
    obtain ⟨hst, hrest⟩ := append_mark_inj hvl hwl (List.cons.inj h).2
    exact ⟨by rw [String.toList_injective hst], (List.cons.inj hrest).2⟩
  · have hends : ∀ u : Value, type.declares u = true → u.Legible → ')' ∉ u.display.toList := by
      intro u hu hul
      refine notMem_display hul ?_
      rintro s rfl
      exact htext (by cases type <;> first | rfl | exact Bool.noConfusion hu)
    obtain ⟨hdisplay, hrest⟩ := append_mark_inj (hends v hv hvl) (hends w hw hwl) h
    exact ⟨eq_of_display_eq hv hw hfloat (String.toList_injective hdisplay), hrest⟩

end Value

namespace Comparison

theorem symbol_injective : Function.Injective symbol := by
  intro a b h
  cases a <;> cases b <;> first | rfl | exact absurd h (by decide)

/-- The sign of a comparison holds no blank. -/
theorem notMem_symbol (c : Comparison) : ' ' ∉ c.symbol.toList := by
  cases c <;> decide

end Comparison

namespace Expr

theorem toList_display_compare (i : Nat) (field : String) (k : Comparison) (v : Value) :
    (compare i field k v).display.toList =
      '(' :: (field.toList ++ ' ' :: (k.symbol.toList ++ ' ' :: (v.display.toList ++ [')']))) := by
  simp [display]

theorem toList_display_join (k : Connector) (a b : Expr) :
    (k.join a b).display.toList =
      '(' :: (a.display.toList ++ ' ' :: (k.name.toList ++ ' ' ::
        (b.display.toList ++ [')']))) := by
  cases k <;> simp [Connector.join, Connector.name, display]

/-- An expression is a comparison or joins two expressions. -/
theorem eq_compare_or_join (e : Expr) :
    (∃ l : Leaf, e = compare l.index l.field l.comparison l.constant) ∨
      ∃ (k : Connector) (a b : Expr), e = k.join a b := by
  cases e with
  | compare i field c v => exact .inl ⟨⟨i, field, c, v⟩, rfl⟩
  | and a b => exact .inr ⟨.and, a, b, rfl⟩
  | or a b => exact .inr ⟨.or, a, b, rfl⟩

/-- The text of an expression begins with a parenthesis. -/
theorem exists_display (e : Expr) : ∃ s, e.display.toList = '(' :: s := by
  rcases eq_compare_or_join e with ⟨l, rfl⟩ | ⟨k, a, b, rfl⟩
  · exact ⟨_, toList_display_compare l.index l.field l.comparison l.constant⟩
  · exact ⟨_, toList_display_join k a b⟩

/-- A leaf is legible: its field is the one that its name is resolved to, its name is a word
and its constant is a legible one of the field's type. -/
structure LegibleLeaf {ρ : Type} (schema : Schema ρ) (l : Leaf) : Prop where
  tests : ∃ t, l.Tests schema t
  name : IsWord l.field
  constant : l.constant.Legible

section Legible

variable {ρ : Type} {schema : Schema ρ}

variable (schema) in
/-- An expression ends where it ends: no other legible expression has a text that begins or
goes on in the same way. -/
def Ends (e : Expr) : Prop :=
  ∀ (f : Expr) (x y : List Char), (∀ l ∈ f.leaves, LegibleLeaf schema l) →
    e.display.toList ++ x = f.display.toList ++ y → e = f ∧ x = y

/-- The text of a comparison does not begin like that of a connective: behind the first
parenthesis stands the name of a field, or another parenthesis. -/
theorem compare_append_ne_join {l : Leaf} (hl : IsWord l.field) {k : Connector} {a b : Expr}
    {x y : List Char} :
    (compare l.index l.field l.comparison l.constant).display.toList ++ x ≠
      (k.join a b).display.toList ++ y := by
  obtain ⟨c, cs, hcs⟩ : ∃ c cs, l.field.toList = c :: cs := by
    refine List.exists_cons_of_ne_nil fun hnil => hl.1 ?_
    exact String.toList_injective (hnil.trans rfl)
  have hmem : c ∈ l.field.toList := hcs ▸ List.mem_cons_self
  obtain ⟨t, ht⟩ := exists_display a
  rw [toList_display_compare, toList_display_join, hcs, ht]
  intro h
  have hc : c = '(' := (List.cons.inj (List.cons.inj h).2).1
  exact hl.notMem (by decide) (hc ▸ hmem)

/-- Two comparisons are told apart from the left: by the field, by the sign, and by the
constant. -/
theorem compare_append_inj {l m : Leaf} {x y : List Char} (hl : LegibleLeaf schema l)
    (hm : LegibleLeaf schema m)
    (h : (compare l.index l.field l.comparison l.constant).display.toList ++ x =
      (compare m.index m.field m.comparison m.constant).display.toList ++ y) :
    l = m ∧ x = y := by
  simp only [toList_display_compare, List.cons_append, List.append_assoc, List.nil_append,
    List.cons.injEq, true_and] at h
  obtain ⟨hfield, h⟩ := append_mark_inj (hl.name.notMem (by decide)) (hm.name.notMem (by decide)) h
  obtain ⟨hsymbol, h⟩ := append_mark_inj l.comparison.notMem_symbol m.comparison.notMem_symbol h
  have hfields := String.toList_injective hfield
  have hcomparisons := Comparison.symbol_injective (String.toList_injective hsymbol)
  obtain ⟨t, ht⟩ := hl.tests
  obtain ⟨u, hu⟩ := hm.tests
  obtain rfl : t = u := by
    have hresolved := ht.resolved
    rw [hfields, hu.resolved] at hresolved
    exact (Option.some.inj hresolved).symm
  obtain ⟨hconstants, hrest⟩ := Value.display_append_inj ht.constant hu.constant hl.constant
    hm.constant h
  have hindex : l.index = m.index := ht.index.trans hu.index.symm
  refine ⟨?_, hrest⟩
  cases l
  cases m
  simp_all

theorem ends_compare {l : Leaf} (hl : LegibleLeaf schema l) :
    Ends schema (compare l.index l.field l.comparison l.constant) := by
  intro f x y hf h
  rcases eq_compare_or_join f with ⟨m, rfl⟩ | ⟨k, a, b, rfl⟩
  · obtain ⟨rfl, hxy⟩ := compare_append_inj hl (hf m List.mem_cons_self) h
    exact ⟨rfl, hxy⟩
  · exact absurd h (compare_append_ne_join hl.name)

/-- A displayed join tells where it ends if both sides do. -/
theorem ends_join (k : Connector) {a b : Expr} (ha : Ends schema a) (hb : Ends schema b) :
    Ends schema (k.join a b) := by
  have hname : ∀ k : Connector, ' ' ∉ k.name.toList := by
    intro k
    cases k <;> decide
  intro f x y hf h
  rcases eq_compare_or_join f with ⟨m, rfl⟩ | ⟨k', a', b', rfl⟩
  · exact absurd h.symm (compare_append_ne_join (hf m List.mem_cons_self).name)
  · rw [leaves_join] at hf
    simp only [toList_display_join, List.cons_append, List.append_assoc, List.nil_append,
      List.cons.injEq, true_and] at h
    obtain ⟨haa, hafter⟩ := ha a' _ _ (fun l hl => hf l (List.mem_append_left _ hl)) h
    obtain ⟨hconnector, hright⟩ :=
      append_mark_inj (hname k) (hname k') (List.cons.inj hafter).2
    obtain ⟨hbb, hrest⟩ := hb b' _ _ (fun l hl => hf l (List.mem_append_right _ hl)) hright
    have hk : k = k' := by
      revert hconnector
      cases k <;> cases k' <;> simp [Connector.name]
    exact ⟨by rw [haa, hk, hbb], (List.cons.inj hrest).2⟩

/-- Every legible expression ends where it ends. -/
theorem ends_of_legible {e : Expr} (h : ∀ l ∈ e.leaves, LegibleLeaf schema l) :
    Ends schema e := by
  induction e with
  | compare i field c v =>
      have hleaf := h ⟨i, field, c, v⟩ (by simp [leaves])
      exact ends_compare (l := ⟨i, field, c, v⟩) hleaf
  | and a b iha ihb =>
      exact ends_join .and (iha fun l hl => h l (List.mem_append_left _ hl))
        (ihb fun l hl => h l (List.mem_append_right _ hl))
  | or a b iha ihb =>
      exact ends_join .or (iha fun l hl => h l (List.mem_append_left _ hl))
        (ihb fun l hl => h l (List.mem_append_right _ hl))

theorem eq_of_display_eq {e f : Expr} (he : ∀ l ∈ e.leaves, LegibleLeaf schema l)
    (hf : ∀ l ∈ f.leaves, LegibleLeaf schema l) (h : e.display = f.display) : e = f :=
  (ends_of_legible he f [] [] hf (by rw [h])).1

end Legible

end Expr

namespace Predicate

variable {ρ : Type} {schema : Schema ρ}

/-- No text that a predicate compares with holds a quote. -/
def Unquoted (p : Predicate ρ) : Prop :=
  ∀ l ∈ p.expr.leaves, ∀ s, l.constant = .text s → '"' ∉ s.toList

/-- The leaves of a predicate are legible if the schema is and no text holds a quote. -/
theorem legible_of_compile (hschema : schema.Legible) {formats : List String}
    {conditions : List Condition} {p : Predicate ρ}
    (h : compile schema formats conditions = .ok p) (hquotes : p.Unquoted) :
    ∀ l ∈ p.expr.leaves, Expr.LegibleLeaf schema l := by
  intro l hl
  obtain ⟨t, ht⟩ := leaves_test h l hl
  obtain ⟨f, hstored, hname, -, htype⟩ := Schema.resolve?_eq_some_iff.mp ht.resolved
  have hf : f ∈ schema.fields := List.mem_of_getElem? hstored
  refine ⟨⟨t, ht⟩, hname ▸ hschema.names f hf, ?_⟩
  have hconstant := ht.constant
  rw [htype] at hconstant
  cases hv : l.constant with
  | float x =>
      rw [hv] at hconstant
      refine hschema.types f hf ?_
      cases htype' : f.type <;> rw [htype'] at hconstant <;>
        first | rfl | exact Bool.noConfusion hconstant
  | text s => exact hquotes l hl s hv
  | member name =>
      rw [hv] at hconstant
      cases htype' : f.type with
      | enum e =>
          rw [htype'] at hconstant
          exact hschema.members f hf e htype' name (of_decide_eq_true hconstant)
      | _ =>
          rw [htype'] at hconstant
          exact Bool.noConfusion hconstant
  | _ => trivial

/-- **A displayed predicate can be read back in one way only.**  Over a schema without
floats whose names are words, two predicates without quotes in their texts that are
displayed alike have the same expression, whatever date formats their operands were read
with, and so they hold of the same records. -/
theorem expr_eq_of_display_eq (hschema : schema.Legible) {formats formats' : List String}
    {conditions conditions' : List Condition} {p q : Predicate ρ}
    (hp : compile schema formats conditions = .ok p)
    (hq : compile schema formats' conditions' = .ok q)
    (hpquotes : p.Unquoted) (hqquotes : q.Unquoted) (h : p.display = q.display) :
    p.expr = q.expr ∧ ∀ record, p.evaluate record = q.evaluate record := by
  have hexpr : p.expr = q.expr :=
    Expr.eq_of_display_eq (legible_of_compile hschema hp hpquotes)
      (legible_of_compile hschema hq hqquotes) h
  have hsame : p.schema = q.schema := (schema_of_compile hp).trans (schema_of_compile hq).symm
  refine ⟨hexpr, fun record => ?_⟩
  have hvalue : p.value record = q.value record := by
    funext i
    rw [value, value, hsame]
  rw [evaluate, evaluate, hexpr, hvalue]

end Predicate

/-- A parcel: a record with a decimal, a date-time and a text. -/
structure Parcel where
  weight : Decimal
  sent : DateTime
  label : String

namespace Parcel

def fields : List (Field Parcel) :=
  [⟨"weight", .decimal, Parcel.weight⟩, ⟨"sent", .dateTime, Parcel.sent⟩,
    ⟨"label", .text, Parcel.label⟩]

def schema : Schema Parcel := .build "Parcel" fields

/-- Conditions on a parcel, with a label that looks like a part of an expression. -/
def rules : List Condition :=
  [((Condition.on "weight" .greaterThan).withValue "1.50").withNested
      ((Condition.on "sent" .lessThanOrEqualTo).withValue "2023-05-28 23:59:60.25"),
    ((Condition.on "label" .equals).withValue ") AND (weight > 2").joinedBy .and]

/-- The same conditions on the top level, with the operands written differently. -/
def flatRules : List Condition :=
  [(Condition.on "weight" .greaterThan).withValue " +1.50",
    ((Condition.on "sent" .lessThanOrEqualTo).withValue "05/28/2023 23:59:60.250").joinedBy .and,
    ((Condition.on "label" .equals).withValue ") AND (weight > 2").joinedBy .and]

/-- The date formats of the other conditions. -/
def flatFormats : List String := ["%m/%d/%Y %H:%M:%S%.3f"]

/-- The leap second at the end of 28 May 2023, and a quarter of it. -/
def sentBy : DateTime :=
  ⟨⟨2023, 5, 28, by decide, by decide, by decide, by decide⟩,
    ⟨86399, 1250000000, by decide, by decide, by decide⟩⟩

/-- The test that both lists of conditions are compiled to. -/
def test : Expr :=
  .and
    (.and (.compare 0 "weight" .greater (.decimal (.ofParts false 150 2)))
      (.compare 1 "sent" .lessOrEqual (.dateTime sentBy)))
    (.compare 2 "label" .equal (.text ") AND (weight > 2"))

theorem legible_schema : schema.Legible := by
  have hfields : schema.fields = fields := rfl
  refine ⟨?_, ?_, ?_⟩ <;> rw [hfields] <;> simp only [fields, List.forall_mem_cons]
  · simp
  · exact ⟨by decide, by decide, by decide, nofun⟩
  · simp

theorem unquoted_test : Predicate.Unquoted ⟨schema, test⟩ := by
  intro l hl s hs
  simp only [test, Expr.leaves, List.cons_append, List.nil_append, List.mem_cons,
    List.not_mem_nil, or_false] at hl
  rcases hl with rfl | rfl | rfl
  · cases hs
  · cases hs
  · cases hs
    decide

theorem compile_rules :
    Predicate.compile schema ({} : Options).dateFormats rules = .ok ⟨schema, test⟩ := rfl

theorem compile_flatRules :
    Predicate.compile schema flatFormats flatRules = .ok ⟨schema, test⟩ := rfl

/-- The two lists of conditions are displayed alike, and so they hold of the same
parcels. -/
theorem told_rules :
    ∃ p q, Predicate.compile schema ({} : Options).dateFormats rules = .ok p ∧
      Predicate.compile schema flatFormats flatRules = .ok q ∧ p.Unquoted ∧ q.Unquoted ∧
      p.display = q.display ∧ ∀ parcel, p.evaluate parcel = q.evaluate parcel := by
  refine ⟨_, _, compile_rules, compile_flatRules, unquoted_test, unquoted_test, rfl, ?_⟩
  exact (Predicate.expr_eq_of_display_eq legible_schema compile_rules compile_flatRules
    unquoted_test unquoted_test rfl).2

end Parcel

end FieldRules
