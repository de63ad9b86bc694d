import FieldRules.Proofs.Transparency

/-!
# Lives of supplied tables

A supplied table is known to compilers by its address, and addresses are given again.
Callers build tables, clone and drop handles of them, compile lists with them, and drop
predicates; a table lives as long as a handle or a predicate holds it, and the allocator
may give the address of any other table to a new one.

So a cache might answer with a predicate that reads through a table which has died.  It
does not: an entry under an address is a predicate that holds the very table which was
known by this address when it was made, and keeps it alive as long as the entry is there.

A world notes all tables that have ever been built, by number.  The number tells tables
apart which have had one address, even if they have the same fields.  Nothing is kept alive
by what is noted, be it of tables or, in a session, of answers.

**Results.**
* `Session.Steps.cached_of_returned`: a predicate that a call returns is in a cache then.
* `World.Sound.perform`: events keep the caches sound, and live tables at different places.
* `World.run_reads`: what is returned reads through the table of the handle in the call.
* `World.run_admitsAll`: what callers ask keeps the promise of the allocator.
-/

namespace FieldRules

/-- A supplied table that has been built, with the type of its records. -/
structure Table (κ : Type) [RecordTypes κ] where
  record : κ
  handle : Handle (RecordTypes.Record record)

/-- A predicate reads through the fields of a table, on records of its type. -/
def Returned.Reads {κ : Type} [RecordTypes κ] (p : Returned κ) (table : Table κ) : Prop :=
  (⟨p.record, p.object.predicate.schema⟩ :
    (record : κ) × Schema (RecordTypes.Record record)) = ⟨table.record, table.handle.schema⟩

/-- What callers do.  A handle is given by its place among those that are live, and a
predicate by its place among those that callers keep. -/
inductive Event (κ : Type) [RecordTypes κ]
  | build (table : Table κ)
  | clone (place : Nat)
  | drop (place : Nat)
  | compile (compiler : Nat) (record : κ) (conditions : List Condition)
  | compileWith (compiler place : Nat) (conditions : List Condition)
  | release (place : Nat)
  | clear (compiler : Nat)

/-- A session and its callers: the tables that have been built, the live handles by the
numbers of their tables, the predicates that callers keep, and the number of the table
that was supplied in each step of the session. -/
structure World (κ δ : Type) [RecordTypes κ] where
  session : Session κ δ
  tables : List (Table κ) := []
  handles : List Nat := []
  kept : List (Returned κ) := []
  supplied : List (Option Nat) := []

namespace World

section Lives

variable {κ δ : Type} [RecordTypes κ]

def start (options : List Options) : World κ δ :=
  { session := .start options }

/-- The table of the live handle at a place, with its number. -/
def table? (w : World κ δ) (place : Nat) : Option (Nat × Table κ) :=
  w.handles[place]?.bind fun number => w.tables[number]?.map fun table => (number, table)

/-- The predicates that are alive: callers keep them, or caches. -/
inductive Alive (w : World κ δ) : Returned κ → Prop
  | kept {p : Returned κ} (mem : p ∈ w.kept) : Alive w p
  | cached {c : Compiler κ δ} {e : CacheEntry κ δ} (compiler : c ∈ w.session.compilers)
      (entry : e ∈ c.cache.entries) : Alive w ⟨e.key.record, e.object⟩

/-- A predicate holds the table that was supplied in the step that made it. -/
def Holds (w : World κ δ) (p : Returned κ) (number : Nat) : Prop :=
  w.supplied[p.object.serial]? = some (some number)

/-- The tables that are live: handles hold them, or predicates that are alive. -/
inductive Live (w : World κ δ) (number : Nat) : Prop
  | handle (mem : number ∈ w.handles)
  | predicate {p : Returned κ} (alive : w.Alive p) (holds : w.Holds p number)

/-- An address is free if no live table is there. -/
def Free (w : World κ δ) (address : Nat) : Prop :=
  ∀ number table, w.Live number → w.tables[number]? = some table →
    table.handle.address ≠ address

/-- The allocator gives free addresses only. -/
def Allows (w : World κ δ) : Event κ → Prop
  | .build table => w.Free table.handle.address
  | _ => True

/-- What an event asks of the session, with the number of the table that it supplies. -/
def request? (w : World κ δ) : Event κ → Option (Option Nat × Request κ)
  | .compile compiler record conditions => some (none, .compile compiler record conditions)
  | .compileWith compiler place conditions =>
      (w.table? place).map fun (number, table) =>
        (some number, .compileWith compiler table.record table.handle conditions)
  | .clear compiler => some (none, .clear compiler)
  | .build _ | .clone _ | .drop _ | .release _ => none

/-- What callers do on their own. -/
def manage (w : World κ δ) : Event κ → World κ δ
  | .build table =>
      { w with tables := w.tables ++ [table], handles := w.handles ++ [w.tables.length] }
  | .clone place => { w with handles := w.handles ++ w.handles[place]?.toList }
  | .drop place => { w with handles := w.handles.eraseIdx place }
  | .release place => { w with kept := w.kept.eraseIdx place }
  | .compile .. | .compileWith .. | .clear _ => w

/-- A world after an answer of its session: the caller keeps the predicate that is
returned. -/
def receive (w : World κ δ) (number : Option Nat) (x : Response κ δ × Session κ δ) :
    World κ δ :=
  { w with
    session := x.2
    kept := w.kept ++ x.1.returned?.toList
    supplied := w.supplied ++ [number] }

variable [DecidableEq κ] [DecidableEq δ] [Digest δ]

/-- An event, with the answer of the session if it is asked. -/
def perform (w : World κ δ) (e : Event κ) : Option (Response κ δ) × World κ δ :=
  match w.request? e with
  | some (number, r) => (some (w.session.perform r).1, w.receive number (w.session.perform r))
  | none => (none, w.manage e)

def run (w : World κ δ) : List (Event κ) → World κ δ
  | [] => w
  | e :: es => (w.perform e).2.run es

/-- The allocator gives free addresses only, in every one of some events. -/
def AllowsAll (w : World κ δ) : List (Event κ) → Prop
  | [] => True
  | e :: es => w.Allows e ∧ (w.perform e).2.AllowsAll es

def requests (w : World κ δ) : List (Event κ) → List (Request κ)
  | [] => []
  | e :: es => ((w.request? e).map Prod.snd).toList ++ (w.perform e).2.requests es

end Lives

end World

section Steps

variable {κ δ : Type} [RecordTypes κ] [DecidableEq κ] [DecidableEq δ] [Digest δ]
variable {s : Session κ δ} {r : Request κ} {x : Response κ δ × Session κ δ}

/-- An entry that a step with a request makes: a predicate with the number of the step,
compiled against the schema of the request. -/
def Session.Makes (s : Session κ δ) (r : Request κ) (e : CacheEntry κ δ) : Prop :=
  ∃ j digest p, r.job? = some j ∧ p.schema = j.schema ∧
    e = ⟨⟨j.record, j.source, digest⟩, ⟨s.returned.length, j.source, p⟩⟩

namespace Session.Steps

theorem length_returned (h : s.Steps r x) : x.2.returned.length = s.returned.length + 1 := by
  cases h <;> simp [pass, record]

/-- An entry after a step was there before, or the step has made it. -/
theorem entry (h : s.Steps r x) {d : Compiler κ δ} (hd : d ∈ x.2.compilers)
    {e : CacheEntry κ δ} (he : e ∈ d.cache.entries) :
    (∃ c ∈ s.compilers, e ∈ c.cache.entries) ∨ s.Makes r e := by
  cases h with
  | idle => exact .inl ⟨d, hd, he⟩
  | cleared =>
      rcases mem_record hd with hd | rfl
      · exact .inl ⟨d, hd, he⟩
      · cases he
  | @served c j call present asked serves =>
      have hc : c ∈ s.compilers := List.mem_of_getElem? present
      rcases mem_record hd with hd | rfl
      · exact .inl ⟨d, hd, he⟩
      · cases serves with
        | found => exact .inl ⟨c, hc, he⟩
        | failed => exact .inl ⟨c, hc, he⟩
        | @made p missing compiled =>
            rcases List.mem_cons.mp he with rfl | he
            · exact .inr ⟨j, _, p, asked, Predicate.schema_of_compile compiled, rfl⟩
            · exact .inl ⟨c, hc, he⟩

/-- A predicate that a step returns is then in a cache, under the record type and the
schema of the request. -/
theorem cached_of_returned (h : s.Steps r x) {p : Returned κ} (hp : x.1.returned? = some p) :
    ∃ j digest object, r.job? = some j ∧ p = ⟨j.record, object⟩ ∧
      ∃ d ∈ x.2.compilers,
        (⟨⟨j.record, j.source, digest⟩, object⟩ : CacheEntry κ δ) ∈ d.cache.entries := by
  cases h with
  | idle => cases hp
  | cleared => cases hp
  | @served c j call present asked serves =>
      have hcall : call.compiler ∈ (s.record r.compiler call.compiler (.ofCall call)).compilers :=
        List.mem_set (List.getElem?_eq_some_iff.mp present).1 call.compiler
      cases serves with
      | @found object stored =>
          cases hp
          exact ⟨j, _, object, asked, rfl, _, hcall, Cache.mem_of_find? stored⟩
      | made =>
          cases hp
          exact ⟨j, _, _, asked, rfl, _, hcall, List.mem_cons_self⟩
      | failed => cases hp

end Session.Steps

end Steps

theorem getElem?_of_prefix {α : Type} {as bs : List α} {n : Nat} {a : α} (h : as <+: bs)
    (ha : as[n]? = some a) : bs[n]? = some a := by
  obtain ⟨cs, rfl⟩ := h
  rw [List.getElem?_append_left (List.getElem?_eq_some_iff.mp ha).1, ha]

namespace World

variable {κ δ : Type} [RecordTypes κ]

/-- What a request supplies is the table with a number, which a live handle holds. -/
def Supplies (w : World κ δ) (number : Option Nat) : Request κ → Prop
  | .compileWith _ record handle _ =>
      ∃ n ∈ w.handles, number = some n ∧ w.tables[n]? = some ⟨record, handle⟩
  | .compile .. | .clear _ => number = none

/-- An entry is sound in a world: its predicate is that of an earlier step, and under an
address it holds a table which is there, and reads through its fields. -/
structure Keeps (w : World κ δ) (e : CacheEntry κ δ) : Prop where
  source : e.object.source = e.key.schema
  earlier : e.object.serial < w.supplied.length
  reads : ∀ name address, e.key.schema = .supplied name address →
    ∃ number table, w.Holds ⟨e.key.record, e.object⟩ number ∧
      w.tables[number]? = some table ∧ table.handle.address = address ∧
        Returned.Reads ⟨e.key.record, e.object⟩ table

/-- A world is sound: live tables have addresses of their own, and entries of caches are
sound. -/
structure Sound (w : World κ δ) : Prop where
  length_supplied : w.supplied.length = w.session.returned.length
  earlier : ∀ p ∈ w.kept, p.object.serial < w.supplied.length
  built : ∀ number, w.Live number → number < w.tables.length
  apart : ∀ {m n : Nat} {s t : Table κ}, w.Live m → w.Live n → w.tables[m]? = some s →
    w.tables[n]? = some t → s.handle.address = t.handle.address → m = n
  entries : ∀ c ∈ w.session.compilers, ∀ e ∈ c.cache.entries, w.Keeps e

section Lemmas

variable {w w' : World κ δ} {place number : Nat} {table : Table κ}

theorem table?_eq_some_iff : w.table? place = some (number, table) ↔
    w.handles[place]? = some number ∧ w.tables[number]? = some table := by
  simp [table?, Option.bind_eq_some_iff]

theorem supplies_of_request? {e : Event κ} {supplied : Option Nat} {r : Request κ}
    (h : w.request? e = some (supplied, r)) : w.Supplies supplied r := by
  cases e with
  | compile => cases h; rfl
  | clear => cases h; rfl
  | compileWith compiler place conditions =>
      obtain ⟨⟨n, t⟩, htable, heq⟩ := Option.map_eq_some_iff.mp h
      cases heq
      obtain ⟨hplace, hnumber⟩ := table?_eq_some_iff.mp htable
      exact ⟨n, List.mem_of_getElem? hplace, rfl, hnumber⟩
  | build => cases h
  | clone => cases h
  | drop => cases h
  | release => cases h

theorem Alive.of_subset {p : Returned κ} (hp : w'.Alive p) (hsession : w'.session = w.session)
    (hkept : w'.kept ⊆ w.kept) : w.Alive p := by
  cases hp with
  | kept mem => exact .kept (hkept mem)
  | cached compiler entry =>
      rw [hsession] at compiler
      exact .cached compiler entry

/-- Predicates in use have been returned by earlier steps. -/
theorem Sound.earlier_of_alive (hw : w.Sound) {p : Returned κ} (hp : w.Alive p) :
    p.object.serial < w.supplied.length := by
  cases hp with
  | kept mem => exact hw.earlier p mem
  | cached compiler entry => exact (hw.entries _ compiler _ entry).earlier

/-- Entries stay sound when tables and steps are added. -/
theorem Keeps.mono {e : CacheEntry κ δ} (he : w.Keeps e) (htables : w.tables <+: w'.tables)
    (hsupplied : w.supplied <+: w'.supplied) : w'.Keeps e := by
  have hlength : w.supplied.length ≤ w'.supplied.length := hsupplied.length_le
  refine ⟨he.source, Nat.lt_of_lt_of_le he.earlier hlength, fun name address hkey => ?_⟩
  obtain ⟨number, table, hholds, htable, hrest⟩ := he.reads name address hkey
  exact ⟨number, table, getElem?_of_prefix hsupplied hholds, getElem?_of_prefix htables htable,
    hrest⟩

theorem Sound.of_live (hw : w.Sound) (htables : w'.tables = w.tables)
    (hlive : ∀ n, w'.Live n → w.Live n)
    (hlength : w'.supplied.length = w'.session.returned.length)
    (hearlier : ∀ p ∈ w'.kept, p.object.serial < w'.supplied.length)
    (hentries : ∀ c ∈ w'.session.compilers, ∀ e ∈ c.cache.entries, w'.Keeps e) : w'.Sound := by
  refine ⟨hlength, hearlier, fun n hn => ?_, fun hm hn hs ht haddress => ?_, hentries⟩
  · rw [htables]
    exact hw.built n (hlive n hn)
  · rw [htables] at hs ht
    exact hw.apart (hlive _ hm) (hlive _ hn) hs ht haddress

end Lemmas

section Steps

variable {w : World κ δ}

theorem sound_start (options : List Options) : (start options : World κ δ).Sound := by
  have hempty : ∀ c ∈ (start options : World κ δ).session.compilers, c.cache.entries = [] := by
    intro c hc
    obtain ⟨o, -, rfl⟩ := List.mem_map.mp hc
    rfl
  have hdead : ∀ n, ¬ (start options : World κ δ).Live n := by
    rintro n (hn | ⟨hp, hholds⟩)
    · cases hn
    · cases hholds
  refine ⟨rfl, fun p hp => ?_, fun n hn => absurd hn (hdead n),
    fun hm => absurd hm (hdead _), fun c hc e he => ?_⟩
  · cases hp
  · rw [hempty c hc] at he
    cases he

theorem Sound.of_subset (hw : w.Sound) {handles : List Nat} {kept : List (Returned κ)}
    (hhandles : handles ⊆ w.handles) (hkept : kept ⊆ w.kept) :
    Sound { w with handles, kept } := by
  refine hw.of_live rfl (fun n hn => ?_) hw.length_supplied
    (fun p hp => hw.earlier p (hkept hp)) fun c hc e he =>
      (hw.entries c hc e he).mono (List.prefix_refl _) (List.prefix_refl _)
  cases hn with
  | handle mem => exact .handle (hhandles mem)
  | predicate alive holds => exact .predicate (alive.of_subset rfl hkept) holds

/-- Building a table at a free address keeps a state sound: no live table has been
there. -/
theorem Sound.build (hw : w.Sound) {table : Table κ} (hfree : w.Free table.handle.address) :
    (w.manage (.build table)).Sound := by
  have hlive : ∀ n, (w.manage (.build table)).Live n → w.Live n ∨ n = w.tables.length := by
    intro n hn
    cases hn with
    | handle mem =>
        rcases List.mem_append.mp mem with mem | mem
        · exact .inl (.handle mem)
        · exact .inr (List.mem_singleton.mp mem)
    | predicate alive holds =>
        exact .inl (.predicate (alive.of_subset rfl (List.Subset.refl _)) holds)
  have hold : ∀ {n : Nat} {t : Table κ}, w.Live n →
      (w.tables ++ [table])[n]? = some t → w.tables[n]? = some t := by
    intro n t hn ht
    rwa [List.getElem?_append_left (hw.built n hn)] at ht
  have hnew : ∀ {t : Table κ}, (w.tables ++ [table])[w.tables.length]? = some t → table = t := by
    intro t ht
    simpa using ht
  refine ⟨hw.length_supplied, hw.earlier, fun n hn => ?_, fun hm hn hs ht haddress => ?_,
    fun c hc e he => (hw.entries c hc e he).mono (List.prefix_append _ _) (List.prefix_refl _)⟩
  · show n < (w.tables ++ [table]).length
    rw [List.length_append, List.length_singleton]
    rcases hlive n hn with hn | rfl
    · exact Nat.lt_succ_of_lt (hw.built n hn)
    · exact Nat.lt_succ_self _
  · rcases hlive _ hm with hm | rfl <;> rcases hlive _ hn with hn | rfl
    · exact hw.apart hm hn (hold hm hs) (hold hn ht) haddress
    · obtain rfl := hnew ht
      exact absurd haddress (hfree _ _ hm (hold hm hs))
    · obtain rfl := hnew hs
      exact absurd haddress.symm (hfree _ _ hn (hold hn ht))
    · rfl

theorem Sound.manage (hw : w.Sound) {e : Event κ} (h : w.Allows e) : (w.manage e).Sound := by
  cases e with
  | build table => exact hw.build h
  | clone place =>
      refine hw.of_subset (List.append_subset.mpr ⟨List.Subset.refl _, fun n hn => ?_⟩)
        (List.Subset.refl _)
      exact List.mem_of_getElem? (Option.mem_toList.mp hn)
  | drop place => exact hw.of_subset (List.eraseIdx_subset) (List.Subset.refl _)
  | release place => exact hw.of_subset (List.Subset.refl _) (List.eraseIdx_subset)
  | compile => exact hw
  | compileWith => exact hw
  | clear => exact hw

theorem length_supplied_receive (supplied : Option Nat) (x : Response κ δ × Session κ δ) :
    (w.receive supplied x).supplied.length = w.supplied.length + 1 := by
  simp [World.receive]

/-- An entry that a step has made is sound after the step. -/
theorem keeps_receive {r : Request κ} {supplied : Option Nat} {x : Response κ δ × Session κ δ}
    (hlength : w.supplied.length = w.session.returned.length) (hr : w.Supplies supplied r)
    {e : CacheEntry κ δ} (he : w.session.Makes r e) : (w.receive supplied x).Keeps e := by
  obtain ⟨j, digest, p, hj, hschema, rfl⟩ := he
  refine ⟨rfl, ?_, fun name address hkey => ?_⟩
  · rw [length_supplied_receive, hlength]
    exact Nat.lt_succ_self _
  · obtain ⟨index, cs, rfl⟩ := Request.eq_compileWith hj hkey
    obtain ⟨n, -, rfl, htable⟩ := hr
    refine ⟨n, _, ?_, htable, rfl, ?_⟩
    · show (w.supplied ++ [some n])[w.session.returned.length]? = some (some n)
      rw [← hlength, List.getElem?_concat_length]
    · show (⟨j.record, p.schema⟩ : (record : κ) × Schema (RecordTypes.Record record)) = _
      rw [hschema]

/-- Under the address of a live table, an entry has a predicate that holds this table and
reads through it. -/
theorem Sound.entry_reads (hw : w.Sound) {c : Compiler κ δ} (hc : c ∈ w.session.compilers)
    {e : CacheEntry κ δ} (he : e ∈ c.cache.entries) {name : String} {number : Nat}
    {table : Table κ} (hlive : w.Live number) (htable : w.tables[number]? = some table)
    (hkey : e.key.schema = .supplied name table.handle.address) :
    w.Holds ⟨e.key.record, e.object⟩ number ∧ Returned.Reads ⟨e.key.record, e.object⟩ table := by
  obtain ⟨n, t, hholds, ht, haddress, hreads⟩ := (hw.entries c hc e he).reads _ _ hkey
  -- the entry keeps its table alive, so that no other live table is at the address
  have hn : w.Live n := .predicate (.cached hc he) hholds
  obtain rfl : n = number := hw.apart hn hlive ht htable haddress
  obtain rfl : t = table := Option.some.inj (ht.symm.trans htable)
  exact ⟨hholds, hreads⟩

/-- What a sound world asks keeps the promise of the allocator. -/
theorem Sound.admits (hw : w.Sound) {r : Request κ} {supplied : Option Nat}
    (hr : w.Supplies supplied r) : w.session.Admits r := by
  cases r with
  | compile => exact trivial
  | clear => exact trivial
  | compileWith compiler record handle conditions =>
      rintro held ⟨c, hc, source, digest, object, name, he, hsource, hschema⟩ haddress
      obtain ⟨n, hn, -, htable⟩ := hr
      have hkey : source = .supplied name handle.address := by
        rw [← haddress, ← hsource]
        exact (hw.entries c hc _ he).source.symm
      have hreads := (hw.entry_reads hc he (.handle hn) htable hkey).2
      rw [← hschema]
      exact eq_of_heq (Sigma.mk.inj hreads).2

end Steps

section Asking

variable [DecidableEq κ] [DecidableEq δ] [Digest δ]
variable {w : World κ δ} {r : Request κ} {supplied : Option Nat}
  {x : Response κ δ × Session κ δ}

/-- A predicate that is alive after a step was alive before, or has the number of the
step. -/
theorem alive_receive (h : w.session.Steps r x) {p : Returned κ}
    (hp : (w.receive supplied x).Alive p) :
    w.Alive p ∨ p.object.serial = w.session.returned.length := by
  have hcached : ∀ d ∈ x.2.compilers, ∀ e ∈ d.cache.entries, w.Alive ⟨e.key.record, e.object⟩ ∨
      e.object.serial = w.session.returned.length := by
    intro d hd e he
    rcases h.entry hd he with ⟨c, hc, he⟩ | ⟨j, digest, q, -, -, rfl⟩
    · exact .inl (.cached hc he)
    · exact .inr rfl
  cases hp with
  | kept mem =>
      rcases List.mem_append.mp mem with mem | mem
      · exact .inl (.kept mem)
      · obtain ⟨j, digest, object, -, rfl, d, hd, he⟩ :=
          h.cached_of_returned (Option.mem_toList.mp mem)
        exact hcached d hd _ he
  | cached compiler entry => exact hcached _ compiler _ entry

/-- A table that is live after a step was live before: what the step supplies is held by a
handle. -/
theorem Sound.live_receive (hw : w.Sound) (h : w.session.Steps r x)
    (hr : w.Supplies supplied r) {n : Nat} (hn : (w.receive supplied x).Live n) : w.Live n := by
  cases hn with
  | handle mem => exact .handle mem
  | @predicate p alive holds =>
      have hholds : (w.supplied ++ [supplied])[p.object.serial]? = some (some n) := holds
      rcases alive_receive h alive with hp | hserial
      · rw [List.getElem?_append_left (hw.earlier_of_alive hp)] at hholds
        exact .predicate hp hholds
      · rw [hserial, ← hw.length_supplied, List.getElem?_concat_length] at hholds
        obtain rfl := Option.some.inj hholds
        cases r with
        | compile => cases hr
        | clear => cases hr
        | compileWith =>
            obtain ⟨m, hm, heq, -⟩ := hr
            cases heq
            exact .handle hm

theorem Sound.receive (hw : w.Sound) (h : w.session.Steps r x) (hr : w.Supplies supplied r) :
    (w.receive supplied x).Sound := by
  refine hw.of_live rfl (fun n => hw.live_receive h hr) ?_ (fun p hp => ?_) fun d hd e he => ?_
  · rw [length_supplied_receive, hw.length_supplied]
    exact h.length_returned.symm
  · rw [length_supplied_receive]
    have halive : (w.receive supplied x).Alive p := .kept hp
    rcases alive_receive h halive with hp | hserial
    · exact Nat.lt_succ_of_lt (hw.earlier_of_alive hp)
    · rw [hserial, hw.length_supplied]
      exact Nat.lt_succ_self _
  · rcases h.entry hd he with ⟨c, hc, he⟩ | hmade
    · exact (hw.entries c hc e he).mono (List.prefix_refl _) (List.prefix_append _ _)
    · exact keeps_receive hw.length_supplied hr hmade

/-- A predicate that is returned holds the table that has been supplied, and reads through
it. -/
theorem Sound.reads_of_returned (hw : w.Sound) {compiler number : Nat} {table : Table κ}
    {conditions : List Condition}
    (h : w.session.Steps (.compileWith compiler table.record table.handle conditions) x)
    (hnumber : number ∈ w.handles) (htable : w.tables[number]? = some table) {p : Returned κ}
    (hp : x.1.returned? = some p) :
    (w.receive (some number) x).Holds p number ∧ p.Reads table := by
  have hsound : (w.receive (some number) x).Sound :=
    hw.receive h ⟨number, hnumber, rfl, htable⟩
  obtain ⟨j, digest, object, hj, rfl, d, hd, he⟩ := h.cached_of_returned hp
  cases hj
  exact hsound.entry_reads hd he (.handle hnumber) htable rfl

theorem Sound.perform (hw : w.Sound) {e : Event κ} (h : w.Allows e) :
    (w.perform e).2.Sound := by
  unfold World.perform
  split
  next supplied r hr =>
    exact hw.receive (w.session.perform_steps r) (supplies_of_request? hr)
  next => exact hw.manage h

/-- Every run that the allocator allows keeps a state sound. -/
theorem Sound.run (hw : w.Sound) {es : List (Event κ)} (h : w.AllowsAll es) :
    (w.run es).Sound := by
  induction es generalizing w with
  | nil => exact hw
  | cons e es ih => exact ih (hw.perform h.1) h.2

/-- An event asks at most one request of the session. -/
theorem session_perform (w : World κ δ) (e : Event κ) : (w.perform e).2.session =
    (w.session.run ((w.request? e).map Prod.snd).toList).2 := by
  unfold perform
  cases h : w.request? e with
  | some asked => rfl
  | none => cases e <;> rfl

/-- In a sound state the requests keep the promise of the allocator. -/
theorem Sound.admitsAll (hw : w.Sound) {es : List (Event κ)} (h : w.AllowsAll es) :
    w.session.AdmitsAll (w.requests es) := by
  induction es generalizing w with
  | nil => exact trivial
  | cons e es ih =>
      have hrest := ih (hw.perform h.1) h.2
      rw [session_perform] at hrest
      rw [requests]
      cases hr : w.request? e with
      | none =>
          rw [hr] at hrest
          exact hrest
      | some asked =>
          rw [hr] at hrest
          exact ⟨hw.admits (supplies_of_request? hr), hrest⟩

/-- What callers ask keeps the promise of the allocator, if the addresses that it gives are
free. -/
theorem run_admitsAll {options : List Options} {es : List (Event κ)}
    (h : (start options : World κ δ).AllowsAll es) :
    (Session.start options : Session κ δ).AdmitsAll ((start options : World κ δ).requests es) :=
  (sound_start options).admitsAll h

/-- **A supplied table is never taken for another one.**  After any events in which the
allocator gives free addresses only, a predicate that a call with a live handle returns
holds the very table of this handle, and reads through its fields. -/
theorem run_reads {options : List Options} {es : List (Event κ)}
    (hallows : (start options : World κ δ).AllowsAll es) {compiler place : Nat}
    {conditions : List Condition} {p : Returned κ} {log : List (LogEntry δ)} {w' : World κ δ}
    (hp : ((start options : World κ δ).run es).perform (.compileWith compiler place conditions) =
      (some (.compiled p log), w')) :
    ∃ number table, ((start options : World κ δ).run es).table? place = some (number, table) ∧
      w'.Holds p number ∧ p.Reads table := by
  have hw : ((start options : World κ δ).run es).Sound := (sound_start options).run hallows
  generalize (start options : World κ δ).run es = w at hw hp ⊢
  cases htable : w.table? place with
  | none =>
      have hrequest : w.request? (.compileWith compiler place conditions) = none := by
        rw [request?, htable, Option.map_none]
      rw [perform, hrequest] at hp
      cases hp
  | some found =>
      obtain ⟨number, table⟩ := found
      have hrequest : w.request? (.compileWith compiler place conditions) =
          some (some number, .compileWith compiler table.record table.handle conditions) := by
        rw [request?, htable, Option.map_some]
      rw [perform, hrequest] at hp
      obtain ⟨hanswer, rfl⟩ := Prod.mk.inj hp
      obtain ⟨hplace, hnumber⟩ := table?_eq_some_iff.mp htable
      exact ⟨number, table, rfl, hw.reads_of_returned (w.session.perform_steps _)
        (List.mem_of_getElem? hplace) hnumber
        (congrArg Response.returned? (Option.some.inj hanswer))⟩

end Asking
end World

namespace Device

/-- A table for gauges is built, used and given up by all, and another one is built at its
address. -/
def reuse : List (Event Device) :=
  [.build ⟨.gauge, 7, Gauge.schema⟩, .compileWith 0 0 low, .drop 0, .release 0, .clear 0,
    .build ⟨.gauge, 7, inverted⟩]

theorem allowsAll_reuse :
    (World.start [{}] : World Device Blake3.Hash).AllowsAll reuse := by
  refine ⟨?_, trivial, trivial, trivial, trivial, ?_, trivial⟩
  · intro number table hlive ht
    cases ht
  · intro number table hlive _
    rcases hlive with mem | @⟨p, alive, -⟩
    · cases mem
    · rcases alive with mem | ⟨hc, he⟩
      · cases mem
      · cases List.mem_singleton.mp hc
        cases he

/-- At the address of a table that has died, the new table is read. -/
theorem reads_reuse :
    (((World.start [{}] : World Device Blake3.Hash).run reuse).perform
        (.compileWith 0 0 low)).2.Holds ⟨.gauge, 2, .supplied "Gauge" 7, inverted, lowTest⟩ 1 ∧
      Returned.Reads (⟨.gauge, 2, .supplied "Gauge" 7, inverted, lowTest⟩ : Returned Device)
        ⟨.gauge, 7, inverted⟩ := by
  obtain ⟨number, table, htable, hreads⟩ := World.run_reads allowsAll_reuse
    (show (World.run _ reuse).perform (.compileWith 0 0 low) = _ from rfl)
  cases htable
  exact hreads

end Device

end FieldRules
