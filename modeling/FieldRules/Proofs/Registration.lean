import FieldRules.Proofs.Meaning
import Mathlib.Data.List.Dedup
import Mathlib.Data.Finset.Card

/-!
# Registering fields

A schema is built by registering one field after another.  A field whose name is new comes last,
and a field whose name is there already takes the place of the field of that name.  So the fields
of a schema stand in the order in which their names were registered first, no two of them have
one name, and the field that stands under a name is the last one that was registered under it.

What holds of a schema is shown for one registration and from this for all of them, by induction
on the registrations from the last one backwards.

**Results.**
* `Schema.names_registered`: the names of the fields, each once.
* `Schema.find?_registered`: the field under a name is the last one registered under it.
* `Schema.build_last_wins`: a schema is a map in the order of first registration.
-/

namespace FieldRules

namespace Schema

variable {ρ : Type}

/-- The last of some fields with a name. -/
def last? (name : String) (fields : List (Field ρ)) : Option (Field ρ) :=
  fields.reverse.find? fun f => f.name = name

theorem registered_concat (registrations : List (Field ρ)) (field : Field ρ) :
    registered (registrations ++ [field]) = register (registered registrations) field :=
  List.foldl_concat _ _ _ _

theorem eraseDups_concat (names : List String) (name : String) :
    (names ++ [name]).eraseDups =
      if name ∈ names then names.eraseDups else names.eraseDups ++ [name] := by
  rw [List.eraseDups_append]
  by_cases h : name ∈ names <;> simp [List.removeAll, h, List.eraseDups_cons]

/-- The names of the fields are those that were registered, in the order of their first
registration. -/
theorem names_registered (registrations : List (Field ρ)) :
    (registered registrations).map Field.name = (registrations.map Field.name).eraseDups := by
  induction registrations using List.reverseRecOn with
  | nil => rfl
  | append_singleton registrations field ih =>
      rw [registered_concat, register, map_putBy, ih, List.map_append, List.map_singleton,
        eraseDups_concat]
      simp only [List.mem_eraseDups]

/-- The field under a name is the last one that was registered under it. -/
theorem find?_registered (registrations : List (Field ρ)) (name : String) :
    (registered registrations).find? (fun f => f.name = name) = last? name registrations := by
  induction registrations using List.reverseRecOn with
  | nil => rfl
  | append_singleton registrations field ih =>
      rw [registered_concat, register, find?_putBy, ih, last?, last?, List.reverse_concat,
        List.find?_cons]
      by_cases hname : field.name = name <;> simp [hname]

/-- The place of a name is the one that the index has. -/
theorem map_index_resolve? (s : Schema ρ) (name : String) :
    (s.resolve? name).map Target.index = s.index.find? name := by
  cases hindex : s.index.find? name with
  | none => rw [resolve?, hindex]; rfl
  | some i =>
      obtain ⟨f, hget, hname⟩ := find?_index_iff.mp hindex
      have ht : s.resolve? name = some ⟨i, name, f.type⟩ :=
        resolve?_eq_some_iff.mpr ⟨f, hget, hname, rfl, rfl⟩
      rw [ht, Option.map_some]

theorem length_fieldNames (s : Schema ρ) : s.fieldNames.length = s.size := by
  rw [fieldNames, size, List.length_map]

/-- **A schema is a map in the order of first registration.**  After any registrations, the names
of the fields are the registered ones, each once and in the order of first registration; a name is
found exactly if it was registered, and where the index has it; and at its place stands the last
field that was registered under it, name, type and getter. -/
theorem build_last_wins (title : String) (registrations : List (Field ρ)) :
    (build title registrations).fieldNames = (registrations.map Field.name).eraseDups ∧
    (build title registrations).fieldNames.Nodup ∧
    (build title registrations).size = (registrations.map Field.name).toFinset.card ∧
    ∀ name,
      ((build title registrations).resolve? name).isSome =
        decide (name ∈ registrations.map Field.name) ∧
      ((build title registrations).resolve? name).map Target.index =
        (build title registrations).index.find? name ∧
      ∀ t, (build title registrations).resolve? name = some t →
        ∃ f, last? name registrations = some f ∧
          (build title registrations).fields[t.index]? = some f ∧
          f.name = name ∧ t.name = name ∧ t.type = f.type ∧
          ∀ record, (build title registrations).read? t.index record = some (f.read record) := by
  have hnodup : (build title registrations).fieldNames.Nodup := nodup_registered registrations
  have hnames : (build title registrations).fieldNames = (registrations.map Field.name).eraseDups :=
    names_registered registrations
  refine ⟨hnames, hnodup, ?_, fun name => ⟨?_, map_index_resolve? _ name, fun t ht => ?_⟩⟩
  · rw [← length_fieldNames, ← List.toFinset_card_of_nodup hnodup, hnames]
    congr 1
    ext name
    rw [List.mem_toFinset, List.mem_toFinset, List.mem_eraseDups]
  · rw [Bool.eq_iff_iff, isSome_resolve?_iff, decide_eq_true_iff, hnames, List.mem_eraseDups]
  · obtain ⟨f, hget, hname, htname, htype⟩ := resolve?_eq_some_iff.mp ht
    have hlast : last? name registrations = some f := by
      rw [← find?_registered]
      exact field?_eq_some_iff.mpr ⟨List.mem_of_getElem? hget, hname⟩
    refine ⟨f, hlast, hget, hname, htname, htype, fun record => ?_⟩
    rw [read?, hget, Option.map_some]

end Schema

namespace Gauge

/-- Fields of a gauge, the level registered a second time as a text. -/
def registrations : List (Field Gauge) :=
  [⟨"level", .int, Gauge.level⟩, ⟨"state", .enum states, Gauge.state⟩,
    ⟨"level", .text, Gauge.state⟩, ⟨"Level", .int, Gauge.level⟩]

/-- The second registration of the level stands at the place of the first one, and the name in
another case is another name. -/
theorem build_registrations :
    ((Schema.build "Gauge" registrations).resolve? "level" = some ⟨0, "level", .text⟩) ∧
      (Schema.build "Gauge" registrations).fieldNames = ["level", "state", "Level"] ∧
      (Schema.build "Gauge" registrations).read? 0 ⟨2, .zero, "Busy"⟩ = some (.text "Busy") := by
  have hfound : (Schema.build "Gauge" registrations).resolve? "level" =
      some ⟨0, "level", .text⟩ := by decide
  obtain ⟨hnames, -, -, hlast⟩ := Schema.build_last_wins "Gauge" registrations
  refine ⟨hfound, hnames.trans (by decide), ?_⟩
  obtain ⟨f, hf, -, -, -, -, hread⟩ := (hlast "level").2.2 _ hfound
  cases hf
  exact hread _

end Gauge

end FieldRules
