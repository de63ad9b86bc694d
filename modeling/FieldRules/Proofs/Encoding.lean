import FieldRules.Digest
import FieldRules.Proofs.Content
import Mathlib.Algebra.Group.Nat.Defs

/-!
# What an encoding tells

The encoding of a list of conditions tells the key mode and what the mode sees of the
list, and nothing else.  The reason is that every part of an encoding can be read off
the front of any bytes: two parts with bytes behind them are equal only if the parts
say the same and the bytes behind them are equal.  A text that looks like lengths,
marks or whole conditions does no harm, as its own length stands before it.

A length is written into eight bytes, so that only lengths below `lengthLimit` can be
read back.

**Results.**
* `ofText_append_inj`, `ofTexts_append_inj`: texts end where they end.
* `ofCondition_append_inj`: an encoded condition tells its content and its end.
* `ofList_eq_iff`: lists have one encoding exactly if they agree under one mode.
* `Digest.Separates.agree`: so digests tell lists apart, unless they collide.
-/

namespace FieldRules

namespace Encoding

def lengthLimit : Nat := 18446744073709551616

end Encoding

/-- The lengths of the texts and lists of a clause fit into words of eight bytes. -/
structure Clause.Fits (c : Clause) : Prop where
  property : c.property.utf8ByteSize < Encoding.lengthLimit
  value : ∀ s ∈ c.value, s.utf8ByteSize < Encoding.lengthLimit
  count : c.values.length < Encoding.lengthLimit
  values : ∀ s ∈ c.values, s.utf8ByteSize < Encoding.lengthLimit
  minValue : ∀ s ∈ c.minValue, s.utf8ByteSize < Encoding.lengthLimit
  maxValue : ∀ s ∈ c.maxValue, s.utf8ByteSize < Encoding.lengthLimit

mutual

/-- The lengths in a condition fit into words of eight bytes. -/
def Condition.Fits : Condition → Prop
  | ⟨clause, nested⟩ =>
      clause.Fits ∧ nested.length < Encoding.lengthLimit ∧ Condition.FitAll nested

/-- The lengths in conditions fit into words of eight bytes. -/
def Condition.FitAll : List Condition → Prop
  | [] => True
  | c :: cs => c.Fits ∧ Condition.FitAll cs

end

/-- The lengths of a list of conditions and in it fit into words of eight bytes. -/
structure Condition.ListFits (cs : List Condition) : Prop where
  count : cs.length < Encoding.lengthLimit
  all : Condition.FitAll cs

instance (c : Clause) : Decidable c.Fits :=
  decidable_of_iff
    (c.property.utf8ByteSize < Encoding.lengthLimit ∧
      (∀ s ∈ c.value, s.utf8ByteSize < Encoding.lengthLimit) ∧
      c.values.length < Encoding.lengthLimit ∧
      (∀ s ∈ c.values, s.utf8ByteSize < Encoding.lengthLimit) ∧
      (∀ s ∈ c.minValue, s.utf8ByteSize < Encoding.lengthLimit) ∧
      ∀ s ∈ c.maxValue, s.utf8ByteSize < Encoding.lengthLimit)
    ⟨fun ⟨property, value, count, values, minValue, maxValue⟩ =>
        ⟨property, value, count, values, minValue, maxValue⟩,
      fun h => ⟨h.property, h.value, h.count, h.values, h.minValue, h.maxValue⟩⟩

namespace Condition

mutual

/-- Decides whether the lengths in a condition fit. -/
def decFits : (c : Condition) → Decidable c.Fits
  | ⟨clause, nested⟩ =>
      have : Decidable (FitAll nested) := decFitAll nested
      inferInstanceAs
        (Decidable (clause.Fits ∧ nested.length < Encoding.lengthLimit ∧ FitAll nested))

/-- Decides whether the lengths in conditions fit. -/
def decFitAll : (cs : List Condition) → Decidable (FitAll cs)
  | [] => isTrue trivial
  | c :: cs =>
      have : Decidable c.Fits := decFits c
      have : Decidable (FitAll cs) := decFitAll cs
      inferInstanceAs (Decidable (c.Fits ∧ FitAll cs))

end

instance (cs : List Condition) : Decidable (ListFits cs) :=
  have : Decidable (FitAll cs) := decFitAll cs
  decidable_of_iff (cs.length < Encoding.lengthLimit ∧ FitAll cs)
    ⟨fun ⟨count, all⟩ => ⟨count, all⟩, fun h => ⟨h.count, h.all⟩⟩

end Condition

theorem Condition.Fits.clause {c : Condition} (h : c.Fits) : c.clause.Fits := by
  cases c with
  | mk clause nested =>
      rw [Condition.Fits] at h
      exact h.1

theorem Condition.FitAll.clause {cs : List Condition} (h : Condition.FitAll cs) :
    ∀ c ∈ cs, c.clause.Fits := by
  induction cs with
  | nil =>
      intro c hc
      cases hc
  | cons d ds ih =>
      obtain ⟨hd, hds⟩ := h
      intro c hc
      rcases List.mem_cons.mp hc with rfl | hc
      · exact hd.clause
      · exact ih hds c hc

namespace Encoding

section Words

/-- A number that fits into its bytes is told by them. -/
theorem littleEndian_injective {count m n : Nat} (hm : m < 256 ^ count) (hn : n < 256 ^ count)
    (h : littleEndian count m = littleEndian count n) : m = n := by
  induction count generalizing m n with
  | zero =>
      rw [pow_zero] at hm hn
      omega
  | succ count ih =>
      rw [littleEndian, littleEndian, List.cons.injEq] at h
      obtain ⟨hlow, hhigh⟩ := h
      have hmod : m % 256 = n % 256 := by
        simpa using congrArg UInt8.toNat hlow
      rw [pow_succ] at hm hn
      have hdiv : m / 256 = n / 256 := ih (by omega) (by omega) hhigh
      omega

/-- A number in a fixed count of bytes can be cut off a byte string in one way. -/
theorem littleEndian_append_inj {count m n : Nat} (hm : m < 256 ^ count)
    (hn : n < 256 ^ count) {x y : List UInt8}
    (h : littleEndian count m ++ x = littleEndian count n ++ y) : m = n ∧ x = y := by
  obtain ⟨hbytes, hrest⟩ := List.append_inj h (by simp)
  exact ⟨littleEndian_injective hm hn hbytes, hrest⟩

theorem ofLength_append_inj {m n : Nat} (hm : m < lengthLimit) (hn : n < lengthLimit)
    {x y : List UInt8} (h : ofLength m ++ x = ofLength n ++ y) : m = n ∧ x = y :=
  littleEndian_append_inj hm hn h

theorem ofNumber_append_inj {m n : UInt32} {x y : List UInt8}
    (h : ofNumber m ++ x = ofNumber n ++ y) : m = n ∧ x = y := by
  obtain ⟨hnumber, hrest⟩ := littleEndian_append_inj m.toNat_lt n.toNat_lt h
  exact ⟨UInt32.toNat_inj.mp hnumber, hrest⟩

end Words

section Parts

/-- A text ends where it ends, whatever its bytes look like. -/
theorem ofText_append_inj {s t : String} (hs : s.utf8ByteSize < lengthLimit)
    (ht : t.utf8ByteSize < lengthLimit) {x y : List UInt8}
    (h : ofText s ++ x = ofText t ++ y) : s = t ∧ x = y := by
  unfold ofText at h
  rw [List.append_assoc, List.append_assoc] at h
  obtain ⟨hsize, h⟩ := ofLength_append_inj hs ht h
  have hlength : s.toUTF8.data.toList.length = t.toUTF8.data.toList.length := hsize
  obtain ⟨hbytes, hrest⟩ := List.append_inj h hlength
  have harray : s.toUTF8 = t.toUTF8 := ByteArray.ext (Array.toList_inj.mp hbytes)
  exact ⟨String.toByteArray_inj.mp harray, hrest⟩

/-- An optional part ends where it ends, if the part does. -/
theorem ofOption_append_inj {α : Type} {f : α → List UInt8} {a b : Option α}
    (hf : ∀ v ∈ a, ∀ w ∈ b, ∀ {x y : List UInt8}, f v ++ x = f w ++ y → v = w ∧ x = y)
    {x y : List UInt8} (h : ofOption f a ++ x = ofOption f b ++ y) : a = b ∧ x = y := by
  cases a with
  | none =>
      cases b with
      | none => exact ⟨rfl, (List.cons.inj h).2⟩
      | some w => exact absurd (List.cons.inj h).1 (by decide)
  | some v =>
      cases b with
      | none => exact absurd (List.cons.inj h).1 (by decide)
      | some w =>
          obtain ⟨hvw, hrest⟩ := hf v rfl w rfl (List.cons.inj h).2
          exact ⟨congrArg some hvw, hrest⟩

/-- Parts one after another tell what every part tells, if it is known how many there
are. -/
theorem flatMap_append_inj {α β : Type} {f : α → List UInt8} (view : α → β)
    {as bs : List α} (hlength : as.length = bs.length)
    (hf : ∀ a ∈ as, ∀ b ∈ bs, ∀ {x y : List UInt8},
      f a ++ x = f b ++ y → view a = view b ∧ x = y)
    {x y : List UInt8} (h : as.flatMap f ++ x = bs.flatMap f ++ y) :
    as.map view = bs.map view ∧ x = y := by
  induction as generalizing bs with
  | nil =>
      have hnil : bs = [] := List.length_eq_zero_iff.mp hlength.symm
      subst hnil
      exact ⟨rfl, h⟩
  | cons a as ih =>
      cases bs with
      | nil => cases hlength
      | cons b bs =>
          simp only [List.flatMap_cons, List.append_assoc] at h
          obtain ⟨hab, h⟩ := hf a (by simp) b (by simp) h
          obtain ⟨hrest, hxy⟩ := ih (Nat.succ.inj hlength)
            (fun c hc d hd => hf c (List.mem_cons_of_mem _ hc) d (List.mem_cons_of_mem _ hd)) h
          exact ⟨by rw [List.map_cons, List.map_cons, hab, hrest], hxy⟩

/-- A list of texts ends where it ends. -/
theorem ofTexts_append_inj {ss ts : List String} (hss : ss.length < lengthLimit)
    (hts : ts.length < lengthLimit) (hs : ∀ s ∈ ss, s.utf8ByteSize < lengthLimit)
    (ht : ∀ t ∈ ts, t.utf8ByteSize < lengthLimit) {x y : List UInt8}
    (h : ofTexts ss ++ x = ofTexts ts ++ y) : ss = ts ∧ x = y := by
  unfold ofTexts at h
  rw [List.append_assoc, List.append_assoc] at h
  obtain ⟨hlength, h⟩ := ofLength_append_inj hss hts h
  obtain ⟨hmap, hrest⟩ := flatMap_append_inj id hlength
    (fun s hsm t htm => ofText_append_inj (hs s hsm) (ht t htm)) h
  rw [List.map_id, List.map_id] at hmap
  exact ⟨hmap, hrest⟩

end Parts

section Clauses

theorem operator_code_injective {a b : Operator} (h : a.code = b.code) : a = b := by
  cases a <;> cases b <;> first | rfl | exact absurd h (by decide)

theorem connector_code_injective {a b : Connector} (h : a.code = b.code) : a = b := by
  cases a <;> cases b <;> first | rfl | exact absurd h (by decide)

/-- An optional text can be cut off a byte string in one way. -/
theorem ofOption_ofText_append_inj {a b : Option String}
    (ha : ∀ s ∈ a, s.utf8ByteSize < lengthLimit) (hb : ∀ s ∈ b, s.utf8ByteSize < lengthLimit)
    {x y : List UInt8} (h : ofOption ofText a ++ x = ofOption ofText b ++ y) :
    a = b ∧ x = y :=
  ofOption_append_inj (fun s hs t ht => ofText_append_inj (ha s hs) (hb t ht)) h

/-- The encoded structure of a clause tells its signature. -/
theorem ofStructure_append_inj {c d : Clause} (hc : c.Fits) (hd : d.Fits) {x y : List UInt8}
    (h : ofStructure c ++ x = ofStructure d ++ y) : c.signature = d.signature ∧ x = y := by
  unfold ofStructure at h
  simp only [List.append_assoc, List.singleton_append] at h
  obtain ⟨hproperty, h⟩ := ofText_append_inj hc.property hd.property h
  obtain ⟨hoperator, h⟩ := List.cons.inj h
  obtain ⟨hid, hrest⟩ := ofOption_append_inj (fun _ _ _ _ => ofNumber_append_inj) h
  refine ⟨?_, hrest⟩
  unfold Clause.signature
  rw [hproperty, operator_code_injective hoperator, hid]

/-- An encoded clause tells its content. -/
theorem ofClause_append_inj {c d : Clause} (hc : c.Fits) (hd : d.Fits) {x y : List UInt8}
    (h : ofClause c ++ x = ofClause d ++ y) : c.content = d.content ∧ x = y := by
  unfold ofClause at h
  simp only [List.append_assoc, List.singleton_append] at h
  obtain ⟨hsignature, h⟩ := ofStructure_append_inj hc hd h
  obtain ⟨hconnector, h⟩ := List.cons.inj h
  obtain ⟨hvalue, h⟩ := ofOption_ofText_append_inj hc.value hd.value h
  obtain ⟨hvalues, h⟩ := ofTexts_append_inj hc.count hd.count hc.values hd.values h
  obtain ⟨hmin, h⟩ := ofOption_ofText_append_inj hc.minValue hd.minValue h
  obtain ⟨hmax, hrest⟩ := ofOption_ofText_append_inj hc.maxValue hd.maxValue h
  unfold Clause.signature at hsignature
  obtain ⟨hproperty, hoperator, hid⟩ : c.property = d.property ∧ c.operator = d.operator ∧
      c.id = d.id := by simpa using hsignature
  refine ⟨?_, hrest⟩
  unfold Clause.content
  rw [hid, hproperty, hoperator, hvalue, hvalues, hmin, hmax,
    connector_code_injective hconnector]

end Clauses

section Conditions

mutual

/-- An encoded condition tells its content and where it ends. -/
theorem ofCondition_append_inj : ∀ (c d : Condition), c.Fits → d.Fits →
    ∀ {x y : List UInt8}, ofCondition c ++ x = ofCondition d ++ y →
      c.content = d.content ∧ x = y
  | ⟨clause, nested⟩, ⟨clause', nested'⟩, hc, hd, x, y, h => by
      rw [Condition.Fits] at hc hd
      obtain ⟨hclause, hcount, hnested⟩ := hc
      obtain ⟨hclause', hcount', hnested'⟩ := hd
      rw [ofCondition, ofCondition] at h
      simp only [List.append_assoc] at h
      obtain ⟨hcontent, h⟩ := ofClause_append_inj hclause hclause' h
      obtain ⟨hlength, h⟩ := ofLength_append_inj hcount hcount' h
      obtain ⟨hall, hrest⟩ :=
        ofConditions_append_inj nested nested' hlength hnested hnested' h
      refine ⟨?_, hrest⟩
      rw [Condition.content, Condition.content, hcontent, hall]

/-- Conditions encoded one after another tell their contents, if it is known how many
there are. -/
theorem ofConditions_append_inj : ∀ (cs ds : List Condition), cs.length = ds.length →
    Condition.FitAll cs → Condition.FitAll ds →
    ∀ {x y : List UInt8}, ofConditions cs ++ x = ofConditions ds ++ y →
      Condition.contentAll cs = Condition.contentAll ds ∧ x = y
  | [], [], _, _, _, _, _, h => ⟨rfl, h⟩
  | [], _ :: _, hlength, _, _, _, _, _ => nomatch hlength
  | _ :: _, [], hlength, _, _, _, _, _ => nomatch hlength
  | c :: cs, d :: ds, hlength, hcs, hds, x, y, h => by
      obtain ⟨hc, hcs⟩ := hcs
      obtain ⟨hd, hds⟩ := hds
      rw [ofConditions, ofConditions] at h
      simp only [List.append_assoc] at h
      obtain ⟨hcd, h⟩ := ofCondition_append_inj c d hc hd h
      obtain ⟨hall, hrest⟩ :=
        ofConditions_append_inj cs ds (Nat.succ.inj hlength) hcs hds h
      refine ⟨?_, hrest⟩
      rw [Condition.contentAll, Condition.contentAll, hcd, hall]

end

def ofSignature (s : String × Operator × Option UInt32) : List UInt8 :=
  ofText s.1 ++ [s.2.1.code] ++ ofOption ofNumber s.2.2

/-- The encoded structure of clauses is that of their signatures. -/
theorem flatMap_ofStructure (cs : List Condition) :
    (cs.flatMap fun c => ofStructure c.clause) =
      (cs.map fun c => c.clause.signature).flatMap ofSignature := by
  rw [List.flatMap_map]
  rfl

theorem ofList_eq_of_agree {mode : KeyMode} {as bs : List Condition} (h : mode.Agree as bs) :
    ofList mode as = ofList mode bs := by
  cases mode with
  | structural =>
      have hmap : as.map (fun c => c.clause.signature) = bs.map (fun c => c.clause.signature) := h
      have hlength : as.length = bs.length := by
        simpa using congrArg List.length hmap
      unfold ofList
      rw [hlength, flatMap_ofStructure as, flatMap_ofStructure bs, hmap]
  | content =>
      have hall : Condition.contentAll as = Condition.contentAll bs := h
      have hlength : as.length = bs.length := by
        simpa using congrArg List.length hall
      unfold ofList
      rw [hlength, ← ofConditions_contentAll as, hall, ofConditions_contentAll bs]

/-- Lists with one encoding agree in what the mode looks at. -/
theorem agree_of_ofList_eq {mode : KeyMode} {as bs : List Condition}
    (ha : Condition.ListFits as) (hb : Condition.ListFits bs)
    (h : ofList mode as = ofList mode bs) : mode.Agree as bs := by
  unfold ofList at h
  obtain ⟨-, h⟩ := List.cons.inj h
  obtain ⟨hlength, h⟩ := ofLength_append_inj ha.count hb.count h
  cases mode with
  | structural =>
      rw [← List.append_nil (as.flatMap _), ← List.append_nil (bs.flatMap _)] at h
      have hclauses := flatMap_append_inj (fun c => c.clause.signature) hlength
        (fun c hc d hd => ofStructure_append_inj (ha.all.clause c hc) (hb.all.clause d hd)) h
      exact hclauses.1
  | content =>
      have hall := ofConditions_append_inj as bs hlength ha.all hb.all
        (congrArg (· ++ []) h)
      exact hall.1

end Conditions

/-- **What an encoding tells.**  Two lists of conditions are encoded alike exactly if
the modes are the same and the lists agree under it: in all but nominal data types and
numbers of parents, on every level, or in the signatures on the top level. -/
theorem ofList_eq_iff {m n : KeyMode} {as bs : List Condition} (ha : Condition.ListFits as)
    (hb : Condition.ListFits bs) :
    ofList m as = ofList n bs ↔ m = n ∧ m.Agree as bs := by
  constructor
  · intro h
    have hmode : m = n := KeyMode.code_injective (List.cons.inj h).1
    subst hmode
    exact ⟨rfl, agree_of_ofList_eq ha hb h⟩
  · rintro ⟨rfl, h⟩
    exact ofList_eq_of_agree h

/-- Two lists whose texts are the same one after another, but end in other places. -/
def boundaries : List Condition × List Condition :=
  ([((Condition.on "ab" .equals).withValue "c").withNested (Condition.on "d" .isIn)],
    [((Condition.on "a" .equals).withValue "bc").withNested (Condition.on "d" .isIn)])

/-- Texts that end in other places are encoded differently, and nominal data types make
no difference. -/
theorem ofList_boundaries :
    Condition.ListFits boundaries.1 ∧ Condition.ListFits boundaries.2 ∧
      ofList .content boundaries.1 ≠ ofList .content boundaries.2 ∧
      ofList .content (boundaries.1.map (Condition.withDataType "x")) =
        ofList .content boundaries.1 := by
  have hfirst : Condition.ListFits boundaries.1 := by decide
  have hsecond : Condition.ListFits boundaries.2 := by decide
  refine ⟨hfirst, hsecond, ?_, ?_⟩
  · intro h
    obtain ⟨-, hagree⟩ := (ofList_eq_iff hfirst hsecond).mp h
    exact absurd hagree (by unfold KeyMode.Agree; decide)
  · exact (ofList_eq_iff (by decide) hfirst).mpr ⟨rfl, rfl⟩

end Encoding

section Digests

variable {δ : Type} [Digest δ] {mode : KeyMode} {lists : List (List Condition)}

variable (δ) in
/-- Digests do not collide on some lists: those with one digest have one encoding. -/
def Digest.Separates (mode : KeyMode) (lists : List (List Condition)) : Prop :=
  ∀ as ∈ lists, ∀ bs ∈ lists, Condition.digest δ mode as = Condition.digest δ mode bs →
    Encoding.ofList mode as = Encoding.ofList mode bs

/-- Lists with one digest agree, if digests do not collide on them. -/
theorem Digest.Separates.agree (h : Digest.Separates δ mode lists)
    (hfits : ∀ cs ∈ lists, Condition.ListFits cs) {as bs : List Condition} (ha : as ∈ lists)
    (hb : bs ∈ lists) (hdigest : Condition.digest δ mode as = Condition.digest δ mode bs) :
    mode.Agree as bs :=
  Encoding.agree_of_ofList_eq (hfits as ha) (hfits bs hb) (h as ha bs hb hdigest)

end Digests

end FieldRules
