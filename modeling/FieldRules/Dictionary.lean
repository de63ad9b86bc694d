/-!
# Dictionaries

Values under names, in the order in which the names came first.  No name stands twice in a
dictionary: what is put under a name that is there takes the place of what is there.

**Results.**
* `map_putBy`: putting an element into a list adds its name at the end, unless it is there.
* `find?_eq_some_iff_of_nodup`: if names are distinct, a name belongs to one element.
* `Dictionary.find?_ofPairs`: of the pairs with one name the last one counts.
-/

namespace FieldRules

section Lists

variable {α : Type} (name : α → String)

/-- Puts an element into a list: in the place of the element with its name, or last. -/
def putBy (a : α) : List α → List α
  | [] => [a]
  | b :: bs => if name b = name a then a :: bs else b :: putBy a bs

/-- An element that is put into a list adds its name at the end, unless it is there already. -/
theorem map_putBy (a : α) (as : List α) :
    (putBy name a as).map name =
      if name a ∈ as.map name then as.map name else as.map name ++ [name a] := by
  induction as with
  | nil => simp [putBy]
  | cons b bs ih =>
      unfold putBy
      by_cases h : name b = name a
      · simp [h]
      · have h' : ¬ name a = name b := fun e => h e.symm
        simp only [h, if_false, List.map_cons, ih, List.mem_cons, h', false_or]
        split <;> simp

theorem nodup_putBy (a : α) {as : List α} (h : (as.map name).Nodup) :
    ((putBy name a as).map name).Nodup := by
  rw [map_putBy]
  split
  next => exact h
  next hnew =>
    refine List.nodup_append.mpr ⟨h, by simp, ?_⟩
    rintro n hn _ hlast rfl
    rw [List.mem_singleton.mp hlast] at hn
    exact hnew hn

/-- What is found under a name is what was put there, or else what was there before. -/
theorem find?_putBy (a : α) (as : List α) (n : String) :
    (putBy name a as).find? (fun b => name b = n) =
      if name a = n then some a else as.find? fun b => name b = n := by
  induction as with
  | nil => by_cases hn : name a = n <;> simp [putBy, hn]
  | cons b bs ih =>
      unfold putBy
      by_cases hreplaced : name b = name a
      · rw [if_pos hreplaced, List.find?_cons, List.find?_cons, hreplaced]
        by_cases hn : name a = n <;> simp [hn]
      · rw [if_neg hreplaced, List.find?_cons, List.find?_cons, ih]
        by_cases hn : name a = n
        · have hother : name b ≠ n := fun h => hreplaced (h.trans hn.symm)
          simp [hn, hother]
        · simp [hn]

variable {name}

/-- If names are distinct, the element with a name is the one that is found. -/
theorem find?_eq_some_iff_of_nodup {as : List α} (h : (as.map name).Nodup) {a : α} {n : String} :
    (as.find? fun b => name b = n) = some a ↔ a ∈ as ∧ name a = n := by
  induction as with
  | nil => simp
  | cons b bs ih =>
      obtain ⟨hb, hbs⟩ := List.nodup_cons.mp h
      by_cases hn : name b = n
      · rw [List.find?_cons_of_pos (by simpa using hn), Option.some.injEq, List.mem_cons]
        constructor
        · rintro rfl
          exact ⟨.inl rfl, hn⟩
        · rintro ⟨rfl | ha, han⟩
          · rfl
          · exact absurd (hn.trans han.symm ▸ List.mem_map_of_mem ha) hb
      · rw [List.find?_cons_of_neg (by simpa using hn), ih hbs, List.mem_cons]
        constructor
        · rintro ⟨ha, han⟩
          exact ⟨.inr ha, han⟩
        · rintro ⟨rfl | ha, han⟩
          · exact absurd han hn
          · exact ⟨ha, han⟩

end Lists

/-- Values under names, of which no two are the same. -/
inductive Entries (α : Type) : List String → Type
  | nil : Entries α []
  | cons {names : List String} (name : String) (a : α) (rest : Entries α names)
      (fresh : name ∉ names) : Entries α (name :: names)

namespace Entries

variable {α : Type} {names : List String}

def toList {names : List String} : Entries α names → List (String × α)
  | .nil => []
  | .cons name a rest _ => (name, a) :: rest.toList

/-- The entries of a list in which no name stands twice. -/
def ofList : (pairs : List (String × α)) → (pairs.map Prod.fst).Nodup →
    Entries α (pairs.map Prod.fst)
  | [], _ => .nil
  | (name, a) :: pairs, h =>
      .cons name a (ofList pairs (List.nodup_cons.mp h).2) (List.nodup_cons.mp h).1

theorem nodup (es : Entries α names) : names.Nodup := by
  induction es with
  | nil => exact List.nodup_nil
  | cons name a rest fresh ih => exact List.nodup_cons.mpr ⟨fresh, ih⟩

theorem map_fst_toList (es : Entries α names) : es.toList.map Prod.fst = names := by
  induction es with
  | nil => rfl
  | cons name a rest fresh ih => rw [toList, List.map_cons, ih]

theorem toList_ofList (pairs : List (String × α)) (h : (pairs.map Prod.fst).Nodup) :
    (ofList pairs h).toList = pairs := by
  induction pairs with
  | nil => rfl
  | cons p pairs ih =>
      rw [ofList, toList]
      exact congrArg _ (ih _)

end Entries

/-- Values under names that are distinct. -/
structure Dictionary (α : Type) where
  {names : List String}
  entries : Entries α names

namespace Dictionary

variable {α : Type}

def empty : Dictionary α := ⟨.nil⟩

def toList (d : Dictionary α) : List (String × α) := d.entries.toList

/-- The dictionary of a list in which no name stands twice. -/
def ofList (pairs : List (String × α)) (h : (pairs.map Prod.fst).Nodup) : Dictionary α :=
  ⟨.ofList pairs h⟩

theorem nodup_toList (d : Dictionary α) : (d.toList.map Prod.fst).Nodup := by
  rw [toList, Entries.map_fst_toList]
  exact d.entries.nodup

/-- Puts a value under a name, in the place of the one that has it or last. -/
def put (d : Dictionary α) (entry : String × α) : Dictionary α :=
  .ofList (putBy Prod.fst entry d.toList) (nodup_putBy Prod.fst entry d.nodup_toList)

/-- The dictionary of pairs that are put in one after the other. -/
def ofPairs (pairs : List (String × α)) : Dictionary α :=
  pairs.foldl put empty

def find? (d : Dictionary α) (name : String) : Option α :=
  (d.toList.find? fun p => p.1 = name).map Prod.snd

/-- What is left of a dictionary if a function drops some of its values. -/
def filterMap {β : Type} (d : Dictionary α) (f : String × α → Option β) : List β :=
  d.toList.filterMap f

/-- The values with their names and places. -/
def zipIdx (d : Dictionary α) : List ((String × α) × Nat) := d.toList.zipIdx

instance : Coe (List (String × α)) (Dictionary α) := ⟨ofPairs⟩

instance : Coe (Dictionary α) (List (String × α)) := ⟨toList⟩

instance [Repr α] : Repr (Dictionary α) := ⟨fun d => reprPrec d.toList⟩

theorem toList_ofList (pairs : List (String × α)) (h : (pairs.map Prod.fst).Nodup) :
    (ofList pairs h).toList = pairs :=
  Entries.toList_ofList pairs h

/-- A value that is put under a name is found under that name, and nothing else changes. -/
theorem find?_put (d : Dictionary α) (entry : String × α) (name : String) :
    (d.put entry).find? name = if entry.1 = name then some entry.2 else d.find? name := by
  rw [find?, put, toList_ofList, find?_putBy]
  split <;> rfl

/-- Of the values put under one name, the last one is found. -/
theorem find?_foldl_put (pairs : List (String × α)) (d : Dictionary α) (name : String) :
    (pairs.foldl put d).find? name =
      ((pairs.reverse.find? fun p => p.1 = name).map Prod.snd).or (d.find? name) := by
  induction pairs generalizing d with
  | nil => rfl
  | cons p pairs ih =>
      rw [List.foldl_cons, ih, find?_put, List.reverse_cons, List.find?_append,
        List.find?_singleton]
      by_cases hname : p.1 = name
      · cases pairs.reverse.find? fun p => p.1 = name <;> simp [hname]
      · simp [hname]

/-- Of the pairs with one name the last one counts. -/
theorem find?_ofPairs (pairs : List (String × α)) (name : String) :
    (ofPairs pairs).find? name = (pairs.reverse.find? fun p => p.1 = name).map Prod.snd := by
  rw [ofPairs, find?_foldl_put]
  exact Option.or_none ..

end Dictionary
end FieldRules
