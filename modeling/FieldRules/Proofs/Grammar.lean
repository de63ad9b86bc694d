import FieldRules.Proofs.Documents
import FieldRules.Proofs.Compilation

/-!
# Which documents are conditions

A document is a condition if it lists members, as an object or as an array that is not too
long, and every member with a known name has the shape of that member; conditions nested in
it are conditions in the same sense.  A member that is missing has its default value.

**Results.**
* `Member.decodeMember_eq_ok_iff`: a member is read exactly if its value is one of the forms
  of that member of the result.
* `listing_of_decodeListed`, `exists_decodeListed`: reading members one after another.
* `decode_grammar`: exactly the conditions of the grammar are read, as they are written.
-/

namespace FieldRules

namespace Json

theorem decodeText_eq_ok {j : Json} {s : String} : decodeText j = .ok s ↔ j = .text s := by
  cases j <;> simp [decodeText]

theorem decodeText?_eq_ok {j : Json} {s : Option String} :
    decodeText? j = .ok s ↔ j = ofText? s := by
  constructor
  · cases j <;> cases s <;> simp [decodeText?, decodeText, ofText?, Except.map]
  · rintro rfl
    exact decodeText_encode s

theorem decodeNumber?_eq_ok {j : Json} {n : Option UInt32} :
    decodeNumber? j = .ok n ↔ j = ofNumber? n := by
  constructor
  · intro h
    cases j with
    | null =>
        cases h
        rfl
    | integer i =>
        rw [decodeNumber?, decodeBelow] at h
        · split at h
          next hi =>
            cases h
            obtain ⟨hi0, hi⟩ := hi
            rw [word32Limit] at hi
            rw [ofNumber?, UInt32.toNat_ofNat', Nat.mod_eq_of_lt (by omega)]
            exact congrArg integer (by omega)
          next => cases h
        · intro hnull
          cases hnull
    | _ => cases h
  · rintro rfl
    exact decodeNumber_encode n

theorem exists_ofText?_iff {j : Json} :
    (∃ s, j = ofText? s) ↔ j = .null ∨ ∃ s, j = .text s := by
  constructor
  · rintro ⟨s, rfl⟩
    cases s with
    | none => exact .inl rfl
    | some s => exact .inr ⟨s, rfl⟩
  · rintro (rfl | ⟨s, rfl⟩)
    · exact ⟨none, rfl⟩
    · exact ⟨some s, rfl⟩

theorem exists_ofNumber?_iff {j : Json} :
    (∃ n, j = ofNumber? n) ↔ j = .null ∨ ∃ n : Nat, n < word32Limit ∧ j = .integer n := by
  constructor
  · rintro ⟨n, rfl⟩
    cases n with
    | none => exact .inl rfl
    | some n => exact .inr ⟨n.toNat, n.toNat_lt, rfl⟩
  · rintro (rfl | ⟨n, hn, rfl⟩)
    · exact ⟨none, rfl⟩
    · exact ⟨some (UInt32.ofNatLT n hn), rfl⟩

theorem decodeTextItems_eq_ok {js : List Json} {ss : List String} :
    decodeTextItems js = .ok ss ↔ js = ss.map Json.text := by
  constructor
  · intro h
    induction js generalizing ss with
    | nil =>
        cases h
        rfl
    | cons j js ih =>
        rw [decodeTextItems] at h
        obtain ⟨t, ht, h⟩ := ok_of_bind h
        obtain ⟨ts, hts, h⟩ := ok_of_bind h
        cases h
        rw [decodeText_eq_ok.mp ht, ih hts, List.map_cons]
  · rintro rfl
    exact decodeTextItems_map ss

theorem decodeTexts_eq_ok {j : Json} {ss : List String} :
    decodeTexts j = .ok ss ↔ j = .array (ss.map Json.text) := by
  cases j <;> simp [decodeTexts, decodeTextItems_eq_ok]

/-- One of some named values is read off its name, or off an object with the name and
null. -/
theorem decodeVariant_eq_ok {α : Type} {names : List (String × α)} {j : Json} {a : α} :
    decodeVariant names j = .ok a ↔ ∃ name, Names name j ∧ decodeName names name = .ok a := by
  constructor
  · intro h
    unfold decodeVariant at h
    split at h
    next name => exact ⟨name, .text, h⟩
    next members =>
      split at h
      next name k hsingle =>
        obtain ⟨b, hb, h⟩ := ok_of_bind h
        cases k <;> cases h
        exact ⟨name, .object hsingle, hb⟩
      next => cases h
    next => cases h
  · rintro ⟨name, hj, hname⟩
    exact hj.decodeVariant hname

end Json

namespace Condition

/-- A value that is read from a name has that name. -/
theorem decodeName_eq_ok {α : Type} {values : List α} {name : α → String} {s : String} {a : α}
    (h : Json.decodeName (values.map fun a => (name a, a)) s = .ok a) : s = name a := by
  rw [Json.decodeName] at h
  split at h
  next b hb =>
    cases h
    induction values with
    | nil => cases hb
    | cons v values ih =>
        rw [List.map_cons, List.lookup_cons] at hb
        split at hb
        next hs =>
          cases hb
          exact eq_of_beq hs
        next => exact ih hb
  next => cases h

namespace Member

/-- The shape of the value of a member.  What the items of an array of conditions must be is
left open. -/
def Shape : Member → Json → Prop
  | .id, j | .parentId, j => j = .null ∨ ∃ n : Nat, n < Json.word32Limit ∧ j = .integer n
  | .property, j => ∃ s, j = .text s
  | .operator, j => ∃ o : Operator, Json.Names o.name j
  | .value, j | .minValue, j | .maxValue, j | .dataType, j => j = .null ∨ ∃ s, j = .text s
  | .values, j => ∃ ss : List String, j = .array (ss.map Json.text)
  | .connector, j => ∃ k : Connector, Json.Names k.name j
  | .nested, j => ∃ items, j = .array items

/-- Whether a value is read as the nested conditions of a condition. -/
def ReadNested (c : Condition) (j : Json) : Prop :=
  ∃ items, j = .array items ∧ decodeList items = .ok c.nested

/-- A member of a clause is read by the reader of its value. -/
theorem exists_value_of_decode {α : Type} {x : Except Misfit α} {f : α → Clause}
    {a b : Condition}
    (h : ((x >>= fun v => pure (f v) : Except Misfit Clause).map fun c => { a with clause := c }) =
      .ok b) : ∃ v, x = .ok v ∧ b = { a with clause := f v } := by
  cases x with
  | error e => cases h
  | ok v =>
      cases h
      exact ⟨v, rfl, rfl⟩

/-- A member is read exactly if its value is in one of the forms of that member of the
result, and nothing else is changed. -/
theorem decodeMember_eq_ok_iff {m : Member} {a b : Condition} {j : Json} :
    decodeMember a m.name j = .ok b ↔
      m.Writes b.clause (ReadNested b) j ∧ b = m.take a b := by
  constructor
  · intro h
    by_cases hm : m = nested
    · subst hm
      rw [name, decodeMember.eq_def] at h
      split at h
      next items =>
        obtain ⟨cs, hcs, h⟩ := ok_of_bind h
        cases h
        exact ⟨⟨items, rfl, hcs⟩, rfl⟩
      next => cases h
    · rw [decodeMember_eq_clause (fun h => hm (name_injective h))] at h
      cases m with
      | id | parentId =>
          obtain ⟨v, hv, rfl⟩ := exists_value_of_decode h
          exact ⟨Json.decodeNumber?_eq_ok.mp hv, rfl⟩
      | property =>
          obtain ⟨v, hv, rfl⟩ := exists_value_of_decode h
          exact ⟨Json.decodeText_eq_ok.mp hv, rfl⟩
      | value | minValue | maxValue | dataType =>
          obtain ⟨v, hv, rfl⟩ := exists_value_of_decode h
          exact ⟨Json.decodeText?_eq_ok.mp hv, rfl⟩
      | values =>
          obtain ⟨v, hv, rfl⟩ := exists_value_of_decode h
          exact ⟨Json.decodeTexts_eq_ok.mp hv, rfl⟩
      | operator | connector =>
          obtain ⟨v, hv, rfl⟩ := exists_value_of_decode h
          obtain ⟨s, hs, hname⟩ := Json.decodeVariant_eq_ok.mp hv
          cases decodeName_eq_ok hname
          exact ⟨hs, rfl⟩
      | nested => exact absurd rfl hm
  · rintro ⟨hb, htake⟩
    rw [decodeMember_of_writes (fun _ hj => hj) hb a, ← htake]

/-- A form of a member depends on the value of that member only. -/
theorem writes_of_get_eq {m : Member} {a b : Condition} {j : Json}
    (h : m.Writes a.clause (ReadNested a) j) (hget : m.get a = m.get b) :
    m.Writes b.clause (ReadNested b) j := by
  cases m <;> simp only [get] at hget <;> simpa only [Writes, ReadNested, hget] using h

/-- A form of a member has the shape of the member. -/
theorem shape_of_writes {m : Member} {c : Clause} {nested : Json → Prop} {j : Json}
    (hnested : ∀ k, nested k → ∃ items, k = .array items) (h : m.Writes c nested j) :
    m.Shape j := by
  cases m with
  | id | parentId =>
      rw [Shape, ← Json.exists_ofNumber?_iff]
      exact ⟨_, h⟩
  | value | minValue | maxValue | dataType =>
      rw [Shape, ← Json.exists_ofText?_iff]
      exact ⟨_, h⟩
  | nested => exact hnested j h
  | _ => exact ⟨_, h⟩

/-- What has the shape of a member is one of its forms, if the conditions nested in it can
be read. -/
theorem exists_writes_of_shape {m : Member} {j : Json} (h : m.Shape j)
    (hnested : ∀ items, m = nested → j = .array items → ∃ cs, decodeList items = .ok cs) :
    ∃ c : Condition, m.Writes c.clause (ReadNested c) j := by
  cases m with
  | id =>
      obtain ⟨n, hn⟩ := Json.exists_ofNumber?_iff.mpr h
      exact ⟨⟨{ id := n }, []⟩, hn⟩
  | parentId =>
      obtain ⟨n, hn⟩ := Json.exists_ofNumber?_iff.mpr h
      exact ⟨⟨{ parentId := n }, []⟩, hn⟩
  | property =>
      obtain ⟨s, hs⟩ := h
      exact ⟨⟨{ property := s }, []⟩, hs⟩
  | operator =>
      obtain ⟨o, ho⟩ := h
      exact ⟨⟨{ operator := o }, []⟩, ho⟩
  | value =>
      obtain ⟨s, hs⟩ := Json.exists_ofText?_iff.mpr h
      exact ⟨⟨{ value := s }, []⟩, hs⟩
  | minValue =>
      obtain ⟨s, hs⟩ := Json.exists_ofText?_iff.mpr h
      exact ⟨⟨{ minValue := s }, []⟩, hs⟩
  | maxValue =>
      obtain ⟨s, hs⟩ := Json.exists_ofText?_iff.mpr h
      exact ⟨⟨{ maxValue := s }, []⟩, hs⟩
  | dataType =>
      obtain ⟨s, hs⟩ := Json.exists_ofText?_iff.mpr h
      exact ⟨⟨{ dataType := s }, []⟩, hs⟩
  | values =>
      obtain ⟨ss, hss⟩ := h
      exact ⟨⟨{ values := ss }, []⟩, hss⟩
  | connector =>
      obtain ⟨k, hk⟩ := h
      exact ⟨⟨{ connector := k }, []⟩, hk⟩
  | nested =>
      obtain ⟨items, rfl⟩ := h
      obtain ⟨cs, hcs⟩ := hnested items rfl rfl
      exact ⟨⟨{}, cs⟩, items, rfl, hcs⟩

end Member

/-- If members are read one after another, each of them is, and the others are as before. -/
theorem listing_of_decodeListed {members : List (String × Json)} {a r : Condition}
    (hdistinct : (members.map Prod.fst).Nodup) (h : decodeListed a members = .ok r) :
    Listing a r (fun m => m.Writes r.clause (Member.ReadNested r)) members := by
  induction members generalizing a with
  | nil =>
      rw [decodeListed] at h
      cases h
      exact ⟨fun _ _ hk => absurd hk List.not_mem_nil, fun _ _ => rfl⟩
  | cons p members ih =>
      obtain ⟨name, j⟩ := p
      obtain ⟨hfresh, hrest⟩ := List.nodup_cons.mp hdistinct
      rw [decodeListed] at h
      obtain ⟨b, hb, h⟩ := ok_of_bind h
      have hlisting := ih hrest h
      by_cases hname : name ∈ memberNames
      · obtain ⟨m, rfl⟩ := Member.exists_of_mem_memberNames hname
        obtain ⟨hj, htake⟩ := Member.decodeMember_eq_ok_iff.mp hb
        have hkept : m.get b = m.get r := (hlisting.omitted m hfresh).symm
        rw [htake, Member.take_congr hkept] at hlisting
        exact Listing.cons_iff.mpr ⟨Member.writes_of_get_eq hj hkept, hlisting⟩
      · rw [Member.decodeMember_of_not_mem hname] at hb
        cases hb
        exact (Listing.cons_unknown_iff hname).mpr hlisting

/-- Members are read if each of them can be. -/
theorem exists_decodeListed {members : List (String × Json)}
    (h : ∀ (m : Member) (k : Json), (m.name, k) ∈ members →
      ∃ c : Condition, m.Writes c.clause (Member.ReadNested c) k) (a : Condition) :
    ∃ r, decodeListed a members = .ok r := by
  induction members generalizing a with
  | nil => exact ⟨a, by rw [decodeListed]⟩
  | cons p members ih =>
      obtain ⟨n, j⟩ := p
      have hrest := ih fun m k hk => h m k (List.mem_cons_of_mem _ hk)
      by_cases hn : n ∈ memberNames
      · obtain ⟨m, rfl⟩ := Member.exists_of_mem_memberNames hn
        obtain ⟨c, hc⟩ := h m j List.mem_cons_self
        obtain ⟨r, hr⟩ := hrest (m.take a c)
        refine ⟨r, ?_⟩
        rw [decodeListed, Member.decodeMember_of_writes (fun _ hj => hj) hc]
        exact hr
      · obtain ⟨r, hr⟩ := hrest a
        refine ⟨r, ?_⟩
        rw [decodeListed, Member.decodeMember_of_not_mem hn]
        exact hr

/-- An array of conditions is read if each of its items is. -/
theorem exists_decodeList_iff {items : List Json} :
    (∃ cs, decodeList items = .ok cs) ↔ ∀ k ∈ items, ∃ c, decode k = .ok c := by
  induction items with
  | nil => simp [decodeList]
  | cons j items ih =>
      rw [List.forall_mem_cons, ← ih]
      constructor
      · rintro ⟨cs, hcs⟩
        rw [decodeList] at hcs
        obtain ⟨c, hc, hcs⟩ := ok_of_bind hcs
        obtain ⟨ds, hds, hcs⟩ := ok_of_bind hcs
        exact ⟨⟨c, hc⟩, ds, hds⟩
      · rintro ⟨⟨c, hc⟩, cs, hcs⟩
        refine ⟨c :: cs, ?_⟩
        rw [decodeList, hc, hcs]
        rfl

/-- Whether a document is a condition: it lists members, each of those with a known name
has the shape of that member, and so have the members of the conditions nested in it. -/
inductive IsCondition : Json → Prop
  | mk {j : Json} {members : List (String × Json)} (listed : listed? j = some members)
      (shaped : ∀ (m : Member) (k : Json), (m.name, k) ∈ members → m.Shape k)
      (nested : ∀ items, (Member.nested.name, .array items) ∈ members →
        ∀ k ∈ items, IsCondition k) : IsCondition j

/-- More values than there are names are not read. -/
theorem length_le_of_decodeItems {length : Nat} {names : List String} {items : List Json}
    {a r : Condition} (h : decodeItems length a names items = .ok r) :
    items.length ≤ names.length := by
  induction items generalizing a names with
  | nil => exact Nat.zero_le _
  | cons j items ih =>
      cases names with
      | nil =>
          rw [decodeItems] at h
          cases h
      | cons name names =>
          rw [decodeItems] at h
          obtain ⟨b, _, h⟩ := ok_of_bind h
          exact Nat.succ_le_succ (ih h)

/-- Only what lists members is read. -/
theorem exists_listed_of_decode {j : Json} {c : Condition} (h : decode j = .ok c) :
    ∃ members, listed? j = some members ∧ decodeListed {} members = .ok c := by
  have hlisted : ∃ members, listed? j = some members := by
    cases j with
    | object members => exact ⟨members.toList, rfl⟩
    | array items =>
        rw [decode] at h
        exact ⟨_, if_pos (length_le_of_decodeItems h)⟩
    | _ => simp [decode] at h
  obtain ⟨members, hmembers⟩ := hlisted
  exact ⟨members, hmembers, (decode_of_listed hmembers).symm.trans h⟩

mutual

/-- What is read is a document of the condition that comes out. -/
theorem document_of_decode : (c : Condition) → (j : Json) → decode j = .ok c → Document c j
  | ⟨c, nested⟩, j, h => by
      rw [Document]
      obtain ⟨members, hlisted, hmembers⟩ := exists_listed_of_decode h
      obtain ⟨hwritten, homitted⟩ := listing_of_decodeListed (nodup_of_listed hlisted) hmembers
      refine ⟨members, hlisted, fun m k hk => ?_, homitted⟩
      have hform := hwritten m k hk
      cases m with
      | nested =>
          obtain ⟨items, rfl, hitems⟩ := hform
          exact ⟨items, rfl, documentList_of_decodeList nested items hitems⟩
      | _ => exact hform

theorem documentList_of_decodeList :
    (cs : List Condition) → (js : List Json) → decodeList js = .ok cs → DocumentList cs js
  | [], js, h => by
      rw [DocumentList]
      cases js with
      | nil => rfl
      | cons k ks =>
          rw [decodeList] at h
          obtain ⟨d, _, h⟩ := ok_of_bind h
          obtain ⟨ds, _, h⟩ := ok_of_bind h
          cases h
  | c :: cs, js, h => by
      rw [DocumentList]
      cases js with
      | nil =>
          rw [decodeList] at h
          cases h
      | cons k ks =>
          rw [decodeList] at h
          obtain ⟨d, hd, h⟩ := ok_of_bind h
          obtain ⟨ds, hds, h⟩ := ok_of_bind h
          cases h
          exact ⟨k, ks, rfl, document_of_decode c k hd, documentList_of_decodeList cs ks hds⟩

end

mutual

/-- The documents of conditions are conditions of the grammar. -/
theorem isCondition_of_document : (c : Condition) → (j : Json) → Document c j → IsCondition j
  | ⟨c, nested⟩, j, h => by
      rw [Document] at h
      obtain ⟨members, hlisted, hwritten, -⟩ := h
      refine ⟨hlisted, fun m k hk => ?_, fun items hitems => ?_⟩
      · refine Member.shape_of_writes ?_ (hwritten m k hk)
        rintro _ ⟨items, hitems, -⟩
        exact ⟨items, hitems⟩
      · obtain ⟨items', hsame, hitems'⟩ := hwritten .nested _ hitems
        cases hsame
        exact isCondition_of_documentList nested items hitems'

theorem isCondition_of_documentList :
    (cs : List Condition) → (js : List Json) → DocumentList cs js → ∀ k ∈ js, IsCondition k
  | [], js, h => by
      rw [DocumentList] at h
      rw [h]
      exact nofun
  | c :: cs, js, h => by
      rw [DocumentList] at h
      obtain ⟨k, ks, rfl, hk, hks⟩ := h
      exact List.forall_mem_cons.mpr
        ⟨isCondition_of_document c k hk, isCondition_of_documentList cs ks hks⟩

end

/-- Every condition of the grammar is read. -/
theorem exists_decode_of_isCondition {j : Json} (h : IsCondition j) :
    ∃ c, decode j = .ok c := by
  induction h with
  | mk hlisted hshaped _ ih =>
      rw [decode_of_listed hlisted]
      refine exists_decodeListed (fun m k hk => ?_) {}
      refine Member.exists_writes_of_shape (hshaped m k hk) ?_
      rintro items rfl rfl
      exact exists_decodeList_iff.mpr (ih items hk)

/-- **Exactly the conditions of the grammar are read, as they are written.**  A document is
read if and only if it is an object, or an array of no more values than there are members,
and every member in it has its shape, the nested conditions being conditions in the same
sense.  The condition read is the one with the members that are written, and with the
default values of the others. -/
theorem decode_grammar (j : Json) :
    ((∃ c, decode j = .ok c) ↔ IsCondition j) ∧
      ∀ c, decode j = .ok c ↔ IsCondition j ∧ Document c j := by
  have hread : ∀ c, decode j = .ok c → IsCondition j ∧ Document c j := by
    intro c h
    have hdocument := document_of_decode c j h
    exact ⟨isCondition_of_document c j hdocument, hdocument⟩
  refine ⟨⟨fun ⟨c, hc⟩ => (hread c hc).1, exists_decode_of_isCondition⟩, fun c => ?_⟩
  exact ⟨hread c, fun h => decode_of_document c j h.2⟩

end Condition

end FieldRules
