import FieldRules.Compiler.Cache
import Mathlib.Data.Finset.Dedup
import Mathlib.Data.Finset.Card
import Mathlib.Data.List.DropRight

/-!
# The first predicate stored under a key

Callers look predicates up in a cache, store what they have compiled, and clear the cache,
in any order.  Several of them may miss one key before any of them stores a predicate under
it; all the same, what the first of them stores is what every one of them gets.

What a cache answers is told by its history since it was last cleared: by the first predicate
that was offered for a key, and by nothing that was done under other keys.  The history also
tells the number of entries and the counters, which start anew at 2 ^ 64.

An entry is of the type that its key names.  A store whose entries hide their types has to
compare the type of what it finds with the one asked for, and needs an answer for the case
that they differ.  Such a store (`UntypedCache`) goes on as the cache does, and that case
never comes.

**Results.**
* `Cache.reflects_after`: a cache reflects its history.
* `Cache.Reflects.size_eq`: there is one entry for every key for which a predicate was offered.
* `UntypedCache.run_untyped`: a store that hides types answers like a cache.
* `Cache.run_first_stored`: what is answered after any operations.
-/

namespace FieldRules

inductive CacheOp (κ δ : Type) [RecordTypes κ]
  | get (key : CacheKey κ δ)
  | getOrInsert (key : CacheKey κ δ) (object : Shared (RecordTypes.Record key.record))
  | clear

namespace CacheOp

variable {κ δ : Type} [RecordTypes κ]

def Answer : CacheOp κ δ → Type
  | get key => Option (Shared (RecordTypes.Record key.record))
  | getOrInsert key _ => Shared (RecordTypes.Record key.record)
  | clear => Unit

/-- Whether an operation takes every entry out. -/
def isClear : CacheOp κ δ → Bool
  | clear => true
  | get _ | getOrInsert .. => false

/-- The key for which an operation offers a predicate. -/
def key? : CacheOp κ δ → Option (CacheKey κ δ)
  | getOrInsert key _ => some key
  | get _ | clear => none

variable [DecidableEq κ] [DecidableEq δ]

/-- The predicate that an operation offers for a key. -/
def offered? (key : CacheKey κ δ) :
    CacheOp κ δ → Option (Shared (RecordTypes.Record key.record))
  | getOrInsert k object => if h : k = key then some (h ▸ object) else none
  | get _ | clear => none

theorem isSome_offered? (key : CacheKey κ δ) (op : CacheOp κ δ) :
    (op.offered? key).isSome ↔ op.key? = some key := by
  cases op with
  | get k => simp [offered?, key?]
  | clear => simp [offered?, key?]
  | getOrInsert k object =>
      by_cases h : k = key
      · simp [offered?, key?, h]
      · simp [offered?, key?, h]

end CacheOp

structure CacheEvent (κ δ : Type) [RecordTypes κ] where
  op : CacheOp κ δ
  answer : op.Answer

namespace CacheEvent

variable {κ δ : Type} [RecordTypes κ]

def isLookup : CacheEvent κ δ → Bool
  | ⟨.get _, _⟩ => true
  | ⟨.getOrInsert .., _⟩ | ⟨.clear, _⟩ => false

def isHit : CacheEvent κ δ → Bool
  | ⟨.get _, answer⟩ => Option.isSome answer
  | ⟨.getOrInsert .., _⟩ | ⟨.clear, _⟩ => false

/-- The events since a cache was last cleared. -/
def sinceClear (events : List (CacheEvent κ δ)) : List (CacheEvent κ δ) :=
  events.rtakeWhile fun e => !e.op.isClear

variable [DecidableEq κ] [DecidableEq δ]

/-- The first predicate that was offered for a key. -/
def first? (key : CacheKey κ δ) (history : List (CacheEvent κ δ)) :
    Option (Shared (RecordTypes.Record key.record)) :=
  history.findSome? fun e => e.op.offered? key

/-- The different keys for which predicates were offered. -/
def keys (history : List (CacheEvent κ δ)) : Finset (CacheKey κ δ) :=
  (history.filterMap fun e => e.op.key?).toFinset

theorem first?_concat (key : CacheKey κ δ) (history : List (CacheEvent κ δ))
    (e : CacheEvent κ δ) :
    first? key (history ++ [e]) = (first? key history).or (e.op.offered? key) := by
  simp [first?, List.findSome?_append]

theorem isSome_first? (key : CacheKey κ δ) (history : List (CacheEvent κ δ)) :
    (first? key history).isSome ↔ key ∈ keys history := by
  simp only [first?, keys, List.findSome?_isSome_iff, CacheOp.isSome_offered?,
    List.mem_toFinset, List.mem_filterMap]

end CacheEvent

namespace Cache

variable {κ δ : Type} [RecordTypes κ] [DecidableEq κ] [DecidableEq δ]

def perform (c : Cache κ δ) : (op : CacheOp κ δ) → op.Answer × Cache κ δ
  | .get key => c.get key
  | .getOrInsert key object => c.getOrInsert key object
  | .clear => ((), c.clear)

def run (c : Cache κ δ) : List (CacheOp κ δ) → List (CacheEvent κ δ) × Cache κ δ
  | [] => ([], c)
  | op :: ops =>
      let (answer, c) := c.perform op
      let (events, c) := c.run ops
      (⟨op, answer⟩ :: events, c)

/-- A new cache after some operations. -/
def after (ops : List (CacheOp κ δ)) : Cache κ δ := ((empty : Cache κ δ).run ops).2

/-- What has been done with a new cache since some operations last cleared it. -/
def history (ops : List (CacheOp κ δ)) : List (CacheEvent κ δ) :=
  CacheEvent.sinceClear ((empty : Cache κ δ).run ops).1

theorem isSome_find? (key : CacheKey κ δ) (es : List (CacheEntry κ δ)) :
    (find? key es).isSome ↔ key ∈ es.map CacheEntry.key := by
  induction es with
  | nil => simp [find?]
  | cons e es ih =>
      by_cases h : e.key = key
      · simp [find?, h]
      · simp [find?, h, ih, Ne.symm h]

theorem find?_cons (key k : CacheKey κ δ) (object : Shared (RecordTypes.Record k.record))
    (es : List (CacheEntry κ δ)) :
    find? key (⟨k, object⟩ :: es) =
      ((CacheOp.getOrInsert k object).offered? key).or (find? key es) := by
  by_cases h : k = key
  · simp [find?, CacheOp.offered?, h]
  · simp [find?, CacheOp.offered?, h]

/-- A cache is what its history tells: under every key there is the first predicate that was
offered, and nothing is there twice; look-ups are counted, and those that found something. -/
structure Reflects (c : Cache κ δ) (history : List (CacheEvent κ δ)) : Prop where
  found : ∀ key, find? key c.entries = CacheEvent.first? key history
  nodup : (c.entries.map CacheEntry.key).Nodup
  hits : c.hits = UInt64.ofNat (history.countP CacheEvent.isHit)
  lookups : c.hits + c.misses = UInt64.ofNat (history.countP CacheEvent.isLookup)

section Steps

variable {c : Cache κ δ} {past events : List (CacheEvent κ δ)}

theorem reflects_empty : (empty : Cache κ δ).Reflects [] :=
  ⟨fun _ => rfl, List.nodup_nil, rfl, rfl⟩

/-- Reading a cache leaves its entries as they are. -/
theorem Reflects.get (hc : c.Reflects past) (key : CacheKey κ δ) :
    (c.get key).2.Reflects (past ++ [⟨.get key, (c.get key).1⟩]) := by
  have hfirst : ∀ k answer, CacheEvent.first? k (past ++ [⟨.get key, answer⟩]) =
      find? k c.entries := by
    intro k answer
    rw [CacheEvent.first?_concat, CacheOp.offered?, Option.or_none, hc.found]
  unfold Cache.get
  cases hfind : find? key c.entries with
  | some p =>
      refine ⟨fun k => (hfirst k _).symm, hc.nodup, ?_, ?_⟩
      · simp [hc.hits, CacheEvent.isHit]
      · calc
          c.hits + 1 + c.misses = c.hits + c.misses + 1 := by ac_rfl
          _ = _ := by rw [hc.lookups]; simp [CacheEvent.isLookup]
  | none =>
      refine ⟨fun k => (hfirst k _).symm, hc.nodup, ?_, ?_⟩
      · simp [hc.hits, CacheEvent.isHit]
      · calc
          c.hits + (c.misses + 1) = c.hits + c.misses + 1 := by ac_rfl
          _ = _ := by rw [hc.lookups]; simp [CacheEvent.isLookup]

/-- An insertion adds the first predicate under a key, and no other. -/
theorem Reflects.getOrInsert (hc : c.Reflects past) (key : CacheKey κ δ)
    (object : Shared (RecordTypes.Record key.record)) :
    (c.getOrInsert key object).2.Reflects
      (past ++ [⟨.getOrInsert key object, (c.getOrInsert key object).1⟩]) := by
  unfold Cache.getOrInsert
  cases hfind : find? key c.entries with
  | some p =>
      refine ⟨fun k => ?_, hc.nodup, ?_, ?_⟩
      · rw [CacheEvent.first?_concat, ← hc.found k]
        by_cases hk : key = k
        · subst hk
          rw [hfind, Option.some_or]
        · rw [CacheOp.offered?, dif_neg hk, Option.or_none]
      · simp [hc.hits, CacheEvent.isHit]
      · simp [hc.lookups, CacheEvent.isLookup]
  | none =>
      have hnew : key ∉ c.entries.map CacheEntry.key := by
        rw [← isSome_find?, hfind]
        simp
      refine ⟨fun k => ?_, List.nodup_cons.mpr ⟨hnew, hc.nodup⟩, ?_, ?_⟩
      · rw [CacheEvent.first?_concat, ← hc.found k, find?_cons]
        by_cases hk : key = k
        · subst hk
          rw [hfind, Option.none_or, Option.or_none]
        · rw [CacheOp.offered?, dif_neg hk, Option.or_none, Option.none_or]
      · simp [hc.hits, CacheEvent.isHit]
      · simp [hc.lookups, CacheEvent.isLookup]

/-- An operation adds its event to the history, or ends it. -/
theorem Reflects.perform (hc : c.Reflects (CacheEvent.sinceClear events)) (op : CacheOp κ δ) :
    (c.perform op).2.Reflects (CacheEvent.sinceClear (events ++ [⟨op, (c.perform op).1⟩])) := by
  cases op with
  | get key =>
      rw [CacheEvent.sinceClear, List.rtakeWhile_concat_pos _ _ _ rfl]
      exact hc.get key
  | getOrInsert key object =>
      rw [CacheEvent.sinceClear, List.rtakeWhile_concat_pos _ _ _ rfl]
      exact hc.getOrInsert key object
  | clear =>
      rw [CacheEvent.sinceClear, List.rtakeWhile_concat_neg _ _ _ (by simp [CacheOp.isClear])]
      exact reflects_empty

/-- After any operations a cache reflects all that has happened since it was cleared. -/
theorem Reflects.run (hc : c.Reflects (CacheEvent.sinceClear events)) (ops : List (CacheOp κ δ)) :
    (c.run ops).2.Reflects (CacheEvent.sinceClear (events ++ (c.run ops).1)) := by
  induction ops generalizing c events with
  | nil =>
      rw [Cache.run, List.append_nil]
      exact hc
  | cons op ops ih =>
      rw [Cache.run, List.append_cons]
      exact ih (hc.perform op)

theorem reflects_after (ops : List (CacheOp κ δ)) : (after ops).Reflects (history ops) := by
  have hempty : (empty : Cache κ δ).Reflects (CacheEvent.sinceClear []) := reflects_empty
  exact hempty.run ops

theorem Reflects.get_eq (hc : c.Reflects past) (key : CacheKey κ δ) :
    (c.get key).1 = CacheEvent.first? key past := by
  rw [← hc.found key, Cache.get]
  cases find? key c.entries <;> rfl

theorem Reflects.getOrInsert_eq (hc : c.Reflects past) (key : CacheKey κ δ)
    (object : Shared (RecordTypes.Record key.record)) :
    (c.getOrInsert key object).1 = (CacheEvent.first? key past).getD object := by
  rw [← hc.found key, Cache.getOrInsert]
  cases find? key c.entries <;> rfl

theorem Reflects.size_eq (hc : c.Reflects past) :
    c.size = (CacheEvent.keys past).card := by
  have hkeys : (c.entries.map CacheEntry.key).toFinset = CacheEvent.keys past := by
    ext key
    rw [List.mem_toFinset, ← isSome_find?, hc.found key, CacheEvent.isSome_first?]
  rw [← hkeys, List.toFinset_card_of_nodup hc.nodup, List.length_map]
  rfl

end Steps

end Cache

section Untyped

variable {κ δ : Type} [RecordTypes κ]

/-- A predicate that hides the type of its records. -/
structure Untyped (κ : Type) [RecordTypes κ] where
  record : κ
  object : Shared (RecordTypes.Record record)

/-- Takes a predicate as one on records of a type, unless it is on those of another type. -/
def Untyped.cast? [DecidableEq κ] (record : κ) (u : Untyped κ) :
    Option (Shared (RecordTypes.Record record)) :=
  if h : u.record = record then some (h ▸ u.object) else none

@[simp] theorem Untyped.cast?_self [DecidableEq κ] (record : κ)
    (object : Shared (RecordTypes.Record record)) :
    cast? record ⟨record, object⟩ = some object := by
  rw [cast?, dif_pos rfl]

/-- A store of predicates whose entries hide their types. -/
structure UntypedCache (κ δ : Type) [RecordTypes κ] where
  entries : List (CacheKey κ δ × Untyped κ) := []
  hits : UInt64 := 0
  misses : UInt64 := 0

/-- A cache with the types of its entries hidden. -/
def Cache.untyped (c : Cache κ δ) : UntypedCache κ δ :=
  ⟨c.entries.map fun e => (e.key, ⟨e.key.record, e.object⟩), c.hits, c.misses⟩

namespace UntypedCache

variable [DecidableEq κ] [DecidableEq δ]

def find? (c : UntypedCache κ δ) (key : CacheKey κ δ) : Option (Untyped κ) :=
  (c.entries.find? fun e => e.1 = key).map Prod.snd

/-- Looks up a predicate, and counts.  What is of another type counts as missing. -/
def get (c : UntypedCache κ δ) (key : CacheKey κ δ) :
    Option (Shared (RecordTypes.Record key.record)) × UntypedCache κ δ :=
  match (c.find? key).bind (Untyped.cast? key.record) with
  | some p => (some p, { c with hits := c.hits + 1 })
  | none => (none, { c with misses := c.misses + 1 })

/-- Stores something under a key, unless there is something; what is stored then is
returned. -/
def store (c : UntypedCache κ δ) (key : CacheKey κ δ) (u : Untyped κ) :
    Untyped κ × UntypedCache κ δ :=
  match c.find? key with
  | some v => (v, c)
  | none => (u, { c with entries := (key, u) :: c.entries })

/-- Stores a predicate under a key, unless there is something; what is stored then is
returned, or the new predicate if that is of another type. -/
def getOrInsert (c : UntypedCache κ δ) (key : CacheKey κ δ)
    (object : Shared (RecordTypes.Record key.record)) :
    Shared (RecordTypes.Record key.record) × UntypedCache κ δ :=
  let (stored, c) := c.store key ⟨key.record, object⟩
  ((stored.cast? key.record).getD object, c)

def perform (c : UntypedCache κ δ) : (op : CacheOp κ δ) → op.Answer × UntypedCache κ δ
  | .get key => c.get key
  | .getOrInsert key object => c.getOrInsert key object
  | .clear => ((), {})

def run (c : UntypedCache κ δ) :
    List (CacheOp κ δ) → List (CacheEvent κ δ) × UntypedCache κ δ
  | [] => ([], c)
  | op :: ops =>
      let (answer, c) := c.perform op
      let (events, c) := c.run ops
      (⟨op, answer⟩ :: events, c)

/-- Whether every predicate in a store is of the type that its key names. -/
def agrees (c : UntypedCache κ δ) : Bool :=
  c.entries.all fun e => (e.2.cast? e.1.record).isSome

theorem find?_untyped (c : Cache κ δ) (key : CacheKey κ δ) :
    c.untyped.find? key = (Cache.find? key c.entries).map (Untyped.mk key.record) := by
  unfold find? Cache.untyped
  dsimp only
  induction c.entries with
  | nil => rfl
  | cons e es ih =>
      rw [List.map_cons, List.find?_cons, Cache.find?]
      by_cases h : e.key = key
      · subst h
        simp
      · simpa [h] using ih

/-- An operation goes on alike whether the types of entries are hidden or not. -/
theorem perform_untyped (c : Cache κ δ) (op : CacheOp κ δ) :
    c.untyped.perform op = ((c.perform op).1, (c.perform op).2.untyped) := by
  cases op with
  | get key =>
      show c.untyped.get key = ((c.get key).1, (c.get key).2.untyped)
      unfold get Cache.get
      rw [find?_untyped]
      cases Cache.find? key c.entries with
      | none => rfl
      | some p => simp only [Option.map_some, Option.bind_some, Untyped.cast?_self]; rfl
  | getOrInsert key object =>
      show c.untyped.getOrInsert key object =
        ((c.getOrInsert key object).1, (c.getOrInsert key object).2.untyped)
      unfold getOrInsert store Cache.getOrInsert
      rw [find?_untyped]
      cases Cache.find? key c.entries with
      | none => simp only [Option.map_none, Untyped.cast?_self, Option.getD_some]; rfl
      | some p => simp only [Option.map_some, Untyped.cast?_self, Option.getD_some]
  | clear => rfl

/-- A cache that hides the types of its entries gives the same answers. -/
theorem run_untyped (c : Cache κ δ) (ops : List (CacheOp κ δ)) :
    c.untyped.run ops = ((c.run ops).1, (c.run ops).2.untyped) := by
  induction ops generalizing c with
  | nil => rfl
  | cons op ops ih =>
      simp only [run, Cache.run, perform_untyped, ih]

omit [DecidableEq δ] in
theorem agrees_untyped (c : Cache κ δ) : c.untyped.agrees = true := by
  simp [agrees, Cache.untyped]

end UntypedCache

end Untyped

/-- **The first predicate stored under a key stays.**  After any operations on a new cache, a
predicate offered for a key is answered with the first one that was offered for it since the
cache was last cleared, itself included, and a look-up with the same, or with nothing if there
is none.  The entries are as many as the keys for which predicates were offered since then;
hits are the look-ups that found a predicate, and hits and misses together are all look-ups.
A store that hides the types of its entries gives the same answers and is in the same state,
and never holds a predicate of another type than its key names. -/
theorem Cache.run_first_stored {κ δ : Type} [RecordTypes κ] [DecidableEq κ] [DecidableEq δ]
    (ops : List (CacheOp κ δ)) :
    (∀ key object, ((after ops).getOrInsert key object).1 =
        (CacheEvent.first? key (history ops)).getD object) ∧
      (∀ key, ((after ops).get key).1 = CacheEvent.first? key (history ops)) ∧
      (after ops).stats.entries = (CacheEvent.keys (history ops)).card ∧
      (after ops).stats.hits = UInt64.ofNat ((history ops).countP CacheEvent.isHit) ∧
      (after ops).stats.hits + (after ops).stats.misses =
        UInt64.ofNat ((history ops).countP CacheEvent.isLookup) ∧
      UntypedCache.run {} ops = (((empty : Cache κ δ).run ops).1, (after ops).untyped) ∧
      (after ops).untyped.agrees = true := by
  have hc : (after ops).Reflects (history ops) := reflects_after ops
  have huntyped := UntypedCache.run_untyped (empty : Cache κ δ) ops
  exact ⟨hc.getOrInsert_eq, hc.get_eq, hc.size_eq, hc.hits, hc.lookups, huntyped,
    UntypedCache.agrees_untyped (after ops)⟩

end FieldRules
