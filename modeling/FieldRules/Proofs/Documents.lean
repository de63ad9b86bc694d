import FieldRules.Condition.Document
import Mathlib.Data.List.Nodup

/-!
# Documents of a condition

One condition has many documents.  Each of its conditions, at any depth, is an object or
an array; an object has its members in any order and others among them, and an array may
be cut; members with their default values may be missing; operators and connectors are
texts or objects.  All these documents are read alike, because reading a member changes
that member only, to the value written.

**Results.**
* `Member.decodeMember_of_writes`: a member is read as it is written, and no other is
  changed.
* `Listing.cons_iff`: a listing is its first member and a listing of the rest.
* `Listing.decodeListed`: members are read as they are written, in any order.
* `decode_documents`: every document of a condition is read as that condition.
-/

namespace FieldRules

namespace Json

/-- Whether a value is a named value: the name, or an object with the name and null. -/
inductive Names (name : String) : Json → Prop
  | text : Names name (.text name)
  | object {members : Dictionary Json} (single : members.toList = [(name, .null)]) :
      Names name (.object members)

theorem decodeTextItems_map (ss : List String) :
    decodeTextItems (ss.map Json.text) = .ok ss := by
  induction ss with
  | nil => rfl
  | cons s ss ih =>
      rw [List.map_cons, decodeTextItems, ih]
      rfl

/-- Either way of writing a name is read as the named value. -/
theorem Names.decodeVariant {α : Type} {names : List (String × α)} {name : String} {a : α}
    {j : Json} (h : Names name j) (hname : decodeName names name = .ok a) :
    decodeVariant names j = .ok a := by
  cases h with
  | text => exact hname
  | object single =>
      simp only [Json.decodeVariant, single, hname]
      rfl

end Json

namespace Condition

theorem decodeName_operator (o : Operator) : Json.decodeName operatorNames o.name = .ok o := by
  cases o <;> rfl

theorem decodeName_connector (c : Connector) :
    Json.decodeName connectorNames c.name = .ok c := by
  cases c <;> rfl

/-- A member of a condition. -/
inductive Member
  | id
  | property
  | operator
  | value
  | values
  | minValue
  | maxValue
  | dataType
  | connector
  | parentId
  | nested
deriving DecidableEq

namespace Member

def all : List Member :=
  [.id, .property, .operator, .value, .values, .minValue, .maxValue, .dataType, .connector,
    .parentId, .nested]

def name : Member → String
  | .id => "id"
  | .property => "propertyName"
  | .operator => "operator"
  | .value => "value"
  | .values => "values"
  | .minValue => "minValue"
  | .maxValue => "maxValue"
  | .dataType => "dataType"
  | .connector => "logicalOperator"
  | .parentId => "parentId"
  | .nested => "additionalConditions"

def Value : Member → Type
  | .id | .parentId => Option UInt32
  | .property => String
  | .operator => Operator
  | .value | .minValue | .maxValue | .dataType => Option String
  | .values => List String
  | .connector => Connector
  | .nested => List Condition

def get : (m : Member) → Condition → m.Value
  | .id, c => c.clause.id
  | .property, c => c.clause.property
  | .operator, c => c.clause.operator
  | .value, c => c.clause.value
  | .values, c => c.clause.values
  | .minValue, c => c.clause.minValue
  | .maxValue, c => c.clause.maxValue
  | .dataType, c => c.clause.dataType
  | .connector, c => c.clause.connector
  | .parentId, c => c.clause.parentId
  | .nested, c => c.nested

/-- A condition with one member taken from another condition. -/
def take : Member → Condition → Condition → Condition
  | .id, a, c => { a with clause.id := c.clause.id }
  | .property, a, c => { a with clause.property := c.clause.property }
  | .operator, a, c => { a with clause.operator := c.clause.operator }
  | .value, a, c => { a with clause.value := c.clause.value }
  | .values, a, c => { a with clause.values := c.clause.values }
  | .minValue, a, c => { a with clause.minValue := c.clause.minValue }
  | .maxValue, a, c => { a with clause.maxValue := c.clause.maxValue }
  | .dataType, a, c => { a with clause.dataType := c.clause.dataType }
  | .connector, a, c => { a with clause.connector := c.clause.connector }
  | .parentId, a, c => { a with clause.parentId := c.clause.parentId }
  | .nested, a, c => { a with nested := c.nested }

/-- Whether a value is a form of a member of a clause with nested conditions, given the
forms of the nested conditions. -/
def Writes (c : Clause) (nested : Json → Prop) : Member → Json → Prop
  | .id, j => j = Json.ofNumber? c.id
  | .property, j => j = .text c.property
  | .operator, j => Json.Names c.operator.name j
  | .value, j => j = Json.ofText? c.value
  | .values, j => j = .array (c.values.map Json.text)
  | .minValue, j => j = Json.ofText? c.minValue
  | .maxValue, j => j = Json.ofText? c.maxValue
  | .dataType, j => j = Json.ofText? c.dataType
  | .connector, j => Json.Names c.connector.name j
  | .parentId, j => j = Json.ofNumber? c.parentId
  | .nested, j => nested j

theorem mem_all (m : Member) : m ∈ all := by
  cases m <;> decide

theorem map_name_all : all.map name = memberNames := rfl

theorem nodup_memberNames : memberNames.Nodup := by
  decide

theorem name_injective : Function.Injective name := by
  intro m n h
  have hnodup : (all.map name).Nodup := nodup_memberNames
  exact List.inj_on_of_nodup_map hnodup m.mem_all n.mem_all h

theorem name_mem (m : Member) : m.name ∈ memberNames := by
  rw [← map_name_all]
  exact List.mem_map_of_mem m.mem_all

theorem exists_of_mem_memberNames {name : String} (h : name ∈ memberNames) :
    ∃ m : Member, m.name = name := by
  rw [← map_name_all] at h
  obtain ⟨m, _, hm⟩ := List.mem_map.mp h
  exact ⟨m, hm⟩

/-- Conditions with the same values of all members are equal. -/
theorem eq_of_get {a b : Condition} (h : ∀ m : Member, m.get a = m.get b) : a = b := by
  obtain ⟨⟨_, _, _, _, _, _, _, _, _, _⟩, _⟩ := a
  obtain ⟨⟨_, _, _, _, _, _, _, _, _, _⟩, _⟩ := b
  cases h .id
  cases h .property
  cases h .operator
  cases h .value
  cases h .values
  cases h .minValue
  cases h .maxValue
  cases h .dataType
  cases h .connector
  cases h .parentId
  cases h .nested
  rfl

/-- A member that is taken over has the value it is taken from. -/
theorem get_take (m : Member) (a c : Condition) : m.get (m.take a c) = m.get c := by
  cases m <;> rfl

/-- Taking over one member changes no other. -/
theorem get_take_of_ne {m n : Member} (h : n ≠ m) (a c : Condition) :
    n.get (m.take a c) = n.get a := by
  cases m <;> cases n <;> first | rfl | exact absurd rfl h

/-- Taking over a member depends on the value of that member only. -/
theorem take_congr {m : Member} {c d : Condition} (h : m.get c = m.get d) (a : Condition) :
    m.take a c = m.take a d := by
  refine eq_of_get fun n => ?_
  by_cases hnm : n = m
  · rw [hnm, get_take, get_take, h]
  · rw [get_take_of_ne hnm, get_take_of_ne hnm]

theorem decodeMember_eq_clause {name : String} (h : name ≠ "additionalConditions")
    (a : Condition) (j : Json) :
    decodeMember a name j =
      (decodeClauseMember a.clause name j).map fun c => { a with clause := c } := by
  cases j <;> simp only [decodeMember, if_neg h] <;> rfl

/-- Members with unknown names are skipped. -/
theorem decodeMember_of_not_mem {name : String} (h : name ∉ memberNames) (a : Condition)
    (j : Json) : decodeMember a name j = .ok a := by
  have hne : ∀ m : Member, name ≠ m.name := by
    rintro m rfl
    exact h m.name_mem
  have hclause : decodeClauseMember a.clause name j = .ok a.clause := by
    rw [decodeClauseMember]
    · exact hne .id
    · exact hne .property
    · exact hne .operator
    · exact hne .value
    · exact hne .values
    · exact hne .minValue
    · exact hne .maxValue
    · exact hne .dataType
    · exact hne .connector
    · exact hne .parentId
  rw [decodeMember_eq_clause (hne .nested), hclause]
  cases a
  rfl

/-- A member is read as it is written, and no other member is changed. -/
theorem decodeMember_of_writes {c : Condition} {nested : Json → Prop}
    (hnested : ∀ j, nested j → ∃ items, j = .array items ∧ decodeList items = .ok c.nested)
    {m : Member} {j : Json} (h : m.Writes c.clause nested j) (a : Condition) :
    decodeMember a m.name j = .ok (m.take a c) := by
  cases m with
  | id | parentId =>
      cases h
      rw [decodeMember_eq_clause (by decide), name, decodeClauseMember,
        Json.decodeNumber_encode]
      rfl
  | property =>
      cases h
      rw [decodeMember_eq_clause (by decide)]
      rfl
  | operator =>
      have hread := Json.Names.decodeVariant h (decodeName_operator c.clause.operator)
      rw [decodeMember_eq_clause (by decide), name, decodeClauseMember, hread]
      rfl
  | value | minValue | maxValue | dataType =>
      cases h
      rw [decodeMember_eq_clause (by decide), name, decodeClauseMember,
        Json.decodeText_encode]
      rfl
  | values =>
      cases h
      rw [decodeMember_eq_clause (by decide), name, decodeClauseMember, Json.decodeTexts,
        Json.decodeTextItems_map]
      rfl
  | connector =>
      have hread := Json.Names.decodeVariant h (decodeName_connector c.clause.connector)
      rw [decodeMember_eq_clause (by decide), name, decodeClauseMember, hread]
      rfl
  | nested =>
      obtain ⟨items, rfl, hitems⟩ := hnested j h
      rw [name, decodeMember, if_pos rfl, hitems]
      rfl

end Member

/-- The members that a document of a condition lists: those of an object, or the items of
an array under the names of the members in order. -/
def listed? : Json → Option (List (String × Json))
  | .object members => some members.toList
  | .array items =>
      if items.length ≤ memberNames.length then some (memberNames.zip items) else none
  | _ => none

/-- Reads listed members one after another onto a condition. -/
def decodeListed (a : Condition) : List (String × Json) → Except Misfit Condition
  | [] => .ok a
  | (name, j) :: members => do decodeListed (← decodeMember a name j) members

/-- A list of members of a document that gives the members of a condition: every member
of the condition stands in it in one of its forms, or is missing and has the value that
it had before.  Members with other names do not count. -/
structure Listing (a c : Condition) (writes : Member → Json → Prop)
    (members : List (String × Json)) : Prop where
  written : ∀ (m : Member) (j : Json), (m.name, j) ∈ members → writes m j
  omitted : ∀ m : Member, m.name ∉ members.map Prod.fst → m.get c = m.get a

/-- The members of an object are read one after another. -/
theorem decodeMembers_eq_decodeListed {names : List String} (members : Entries Json names)
    (a : Condition) : decodeMembers a members = decodeListed a members.toList := by
  induction members generalizing a with
  | nil => rw [decodeMembers, Entries.toList, decodeListed]
  | cons name j rest fresh ih =>
      rw [decodeMembers, Entries.toList, decodeListed]
      exact congrArg (decodeMember a name j >>= ·) (funext ih)

/-- The items of an array are read as members under the names in order. -/
theorem decodeItems_eq_decodeListed (length : Nat) {names : List String} {items : List Json}
    (h : items.length ≤ names.length) (a : Condition) :
    decodeItems length a names items = decodeListed a (names.zip items) := by
  induction items generalizing names a with
  | nil => rw [List.zip_nil_right, decodeItems, decodeListed]
  | cons j js ih =>
      cases names with
      | nil => exact absurd h (by simp)
      | cons name names =>
          have hlength : js.length ≤ names.length := Nat.le_of_succ_le_succ h
          rw [List.zip_cons_cons, decodeItems, decodeListed]
          exact congrArg (decodeMember a name j >>= ·) (funext fun b => ih hlength b)

/-- Objects and arrays are read alike, as lists of members. -/
theorem decode_of_listed {j : Json} {members : List (String × Json)}
    (h : listed? j = some members) : decode j = decodeListed {} members := by
  cases j with
  | object ms =>
      cases h
      rw [decode, decodeMembers_eq_decodeListed, Dictionary.toList]
  | array items =>
      rw [listed?] at h
      split at h
      next hlength =>
        cases h
        rw [decode, decodeItems_eq_decodeListed items.length hlength]
      next => cases h
  | _ => cases h

/-- No name is listed twice. -/
theorem nodup_of_listed {j : Json} {members : List (String × Json)}
    (h : listed? j = some members) : (members.map Prod.fst).Nodup := by
  cases j with
  | object ms =>
      cases h
      exact ms.nodup_toList
  | array items =>
      rw [listed?] at h
      split at h
      next hlength =>
        cases h
        rw [List.zip_eq_zip_take_min, Nat.min_eq_right hlength,
          List.map_fst_zip (by rw [List.length_take, List.take_length]; exact Nat.min_le_left ..)]
        exact Member.nodup_memberNames.sublist (List.take_sublist _ _)
      next => cases h
  | _ => cases h

namespace Listing

variable {a c : Condition} {writes : Member → Json → Prop} {members : List (String × Json)}
  {j : Json}

/-- A first member of a listing is one of its forms, and the others list the rest. -/
theorem cons_iff {n : Member} :
    Listing a c writes ((n.name, j) :: members) ↔
      writes n j ∧ Listing (n.take a c) c writes members := by
  constructor
  · intro h
    refine ⟨h.written n j List.mem_cons_self, fun m k hk => ?_, fun m hm => ?_⟩
    · exact h.written m k (List.mem_cons_of_mem _ hk)
    · by_cases hmn : m = n
      · rw [hmn, Member.get_take]
      · rw [Member.get_take_of_ne hmn]
        refine h.omitted m fun hmem => ?_
        rcases List.mem_cons.mp hmem with hname | hmem
        · exact hmn (Member.name_injective hname)
        · exact hm hmem
  · rintro ⟨hj, h⟩
    refine ⟨fun m k hk => ?_, fun m hm => ?_⟩
    · rcases List.mem_cons.mp hk with hk | hk
      · obtain ⟨hname, rfl⟩ := Prod.mk.inj hk
        cases Member.name_injective hname
        exact hj
      · exact h.written m k hk
    · obtain ⟨hne, hm⟩ := List.ne_and_not_mem_of_not_mem_cons hm
      have hmn : m ≠ n := fun e => hne (congrArg Member.name e)
      rw [h.omitted m hm, Member.get_take_of_ne hmn]

/-- A first member with an unknown name makes no difference to a listing. -/
theorem cons_unknown_iff {name : String} (hname : name ∉ memberNames) :
    Listing a c writes ((name, j) :: members) ↔ Listing a c writes members := by
  have hother : ∀ m : Member, m.name ≠ name := by
    rintro m rfl
    exact hname m.name_mem
  constructor
  · intro h
    refine ⟨fun m k hk => h.written m k (List.mem_cons_of_mem _ hk), fun m hm => ?_⟩
    exact h.omitted m (List.not_mem_cons_of_ne_of_not_mem (hother m) hm)
  · intro h
    refine ⟨fun m k hk => ?_, fun m hm => ?_⟩
    · rcases List.mem_cons.mp hk with hk | hk
      · exact absurd (Prod.mk.inj hk).1 (hother m)
      · exact h.written m k hk
    · exact h.omitted m (List.ne_and_not_mem_of_not_mem_cons hm).2

/-- A listing of the members of a condition is read as that condition. -/
theorem decodeListed (h : Listing a c writes members)
    (hread : ∀ (m : Member) (j : Json), writes m j →
      ∀ a, decodeMember a m.name j = .ok (m.take a c)) :
    decodeListed a members = .ok c := by
  induction members generalizing a with
  | nil =>
      have hac : a = c := Member.eq_of_get fun m => (h.omitted m nofun).symm
      rw [Condition.decodeListed, hac]
  | cons p members ih =>
      obtain ⟨name, j⟩ := p
      rw [Condition.decodeListed]
      by_cases hname : name ∈ memberNames
      · obtain ⟨n, rfl⟩ := Member.exists_of_mem_memberNames hname
        obtain ⟨hj, hrest⟩ := cons_iff.mp h
        rw [hread n j hj a]
        exact ih hrest
      · rw [Member.decodeMember_of_not_mem hname]
        exact ih ((cons_unknown_iff hname).mp h)

end Listing

mutual

/-- Whether a document is one of the documents of a condition. -/
def Document : Condition → Json → Prop
  | ⟨c, nested⟩, j => ∃ members, listed? j = some members ∧
      Listing {} ⟨c, nested⟩
        (Member.Writes c fun k => ∃ items, k = .array items ∧ DocumentList nested items)
        members

/-- Whether documents are documents of conditions, one of each. -/
def DocumentList : List Condition → List Json → Prop
  | [], js => js = []
  | c :: cs, js => ∃ k ks, js = k :: ks ∧ Document c k ∧ DocumentList cs ks

end

mutual

theorem decode_of_document : (c : Condition) → (j : Json) → Document c j → decode j = .ok c
  | ⟨c, nested⟩, j, h => by
      rw [Document] at h
      obtain ⟨members, hlisted, hlisting⟩ := h
      rw [decode_of_listed hlisted]
      refine hlisting.decodeListed fun m k hk a =>
        Member.decodeMember_of_writes ?_ hk a
      rintro l ⟨items, rfl, hitems⟩
      exact ⟨items, rfl, decodeList_of_document nested items hitems⟩

theorem decodeList_of_document :
    (cs : List Condition) → (js : List Json) → DocumentList cs js → decodeList js = .ok cs
  | [], js, h => by
      rw [DocumentList] at h
      rw [h, decodeList]
  | c :: cs, js, h => by
      rw [DocumentList] at h
      obtain ⟨k, ks, rfl, hk, hks⟩ := h
      rw [decodeList, decode_of_document c k hk]
      exact congrArg (· >>= fun ds => pure (c :: ds)) (decodeList_of_document cs ks hks)

end

/-- The value of a member in the encoding of a condition, from the encodings of the
conditions nested in it. -/
def Member.encoded (c : Clause) (items : List Json) : Member → Json
  | .id => Json.ofNumber? c.id
  | .property => .text c.property
  | .operator => .text c.operator.name
  | .value => Json.ofText? c.value
  | .values => .array (c.values.map Json.text)
  | .minValue => Json.ofText? c.minValue
  | .maxValue => Json.ofText? c.maxValue
  | .dataType => Json.ofText? c.dataType
  | .connector => .text c.connector.name
  | .parentId => Json.ofNumber? c.parentId
  | .nested => .array items

theorem listed?_encode (c : Clause) (nested : List Condition) :
    listed? (encode ⟨c, nested⟩) =
      some (Member.all.map fun m => (m.name, m.encoded c (encodeList nested))) := by
  rw [encode, listed?, Dictionary.toList_ofList]
  rfl

/-- The list of all members, each in one of its forms. -/
theorem listing_all (c : Condition) {writes : Member → Json → Prop} {form : Member → Json}
    (h : ∀ m, writes m (form m)) :
    Listing {} c writes (Member.all.map fun m => (m.name, form m)) where
  written := by
    intro m j hj
    obtain ⟨n, _, hn⟩ := List.mem_map.mp hj
    obtain ⟨hname, rfl⟩ := Prod.mk.inj hn
    cases Member.name_injective hname
    exact h m
  omitted := by
    intro m hm
    have hmem : m.name ∈ (Member.all.map fun m => (m.name, form m)).map Prod.fst := by
      rw [List.map_map]
      exact List.mem_map_of_mem m.mem_all
    exact absurd hmem hm

mutual

/-- The encoding of a condition is one of its documents. -/
theorem document_encode : (c : Condition) → Document c c.encode
  | ⟨c, nested⟩ => by
      rw [Document]
      refine ⟨_, listed?_encode c nested, listing_all ⟨c, nested⟩ fun m => ?_⟩
      cases m with
      | nested => exact ⟨encodeList nested, rfl, documentList_encode nested⟩
      | operator => exact .text
      | connector => exact .text
      | _ => rfl

theorem documentList_encode : (cs : List Condition) → DocumentList cs (encodeList cs)
  | [] => by rw [DocumentList, encodeList]
  | c :: cs => by
      rw [DocumentList, encodeList]
      exact ⟨_, _, rfl, document_encode c, documentList_encode cs⟩

end

/-- **All documents of a condition are read as that condition.**  The encoding is one of
them.  In any of them, and in the documents nested in it, members may be left out where
they have their default values, stand in any order and among unknown ones; every
condition may be an array of the values of its first members, and every operator or
connector an object with null. -/
theorem decode_documents (c : Condition) :
    decode c.encode = .ok c ∧ ∀ j, Document c j → decode j = .ok c :=
  ⟨decode_of_document c c.encode (document_encode c), decode_of_document c⟩

end Condition

namespace Gauge

/-- A condition on the state and one on the load, nested in it. -/
def stored : Condition :=
  ⟨{ property := "state", operator := .isIn, values := ["Busy"], connector := .and },
    [⟨{ id := some 7, property := "load", operator := .greaterThan, value := some "1.5" },
      []⟩]⟩

/-- Members of a document of the two conditions: out of order, with an unknown one, and with an
array in it that ends with the operand. -/
def storedMembers : List (String × Json) :=
  [("additionalConditions", .array
      [.array [.integer 7, .text "load", .object (.ofPairs [("GreaterThan", .null)]),
        .text "1.5"]]),
    ("comment", .bool true),
    ("logicalOperator", .object (.ofPairs [("AND", .null)])),
    ("values", .array [.text "Busy"]),
    ("operator", .text "In"),
    ("propertyName", .text "state")]

def storedDocument : Json := .object (.ofPairs storedMembers)

/-- The document is read as the two conditions. -/
theorem decode_storedDocument :
    Condition.Document stored storedDocument ∧
      Condition.decode storedDocument = .ok stored := by
  have hload : Condition.Document
      ⟨{ id := some 7, property := "load", operator := .greaterThan, value := some "1.5" }, []⟩
      (.array [.integer 7, .text "load", .object (.ofPairs [("GreaterThan", .null)]),
        .text "1.5"]) := by
    rw [Condition.Document]
    refine ⟨_, rfl, ?_, ?_⟩
    · intro m j hj
      cases m <;> simp [Condition.Member.name, Condition.memberNames] at hj <;> subst hj
      · rfl
      · rfl
      · exact .object rfl
      · rfl
    · intro m hm
      cases m <;> first | rfl | exact absurd hm (by decide)
  have hstored : Condition.Document stored storedDocument := by
    rw [stored, storedDocument, Condition.Document]
    refine ⟨storedMembers, rfl, ?_, ?_⟩
    · intro m j hj
      cases m <;> simp [Condition.Member.name, storedMembers] at hj <;> subst hj
      · rfl
      · exact .text
      · rfl
      · exact .object rfl
      · rw [Condition.Member.Writes]
        refine ⟨_, rfl, ?_⟩
        rw [Condition.DocumentList]
        exact ⟨_, _, rfl, hload, by rw [Condition.DocumentList]⟩
    · intro m hm
      cases m <;> first | rfl | exact absurd hm (by decide)
  exact ⟨hstored, (Condition.decode_documents stored).2 storedDocument hstored⟩

end Gauge
end FieldRules
