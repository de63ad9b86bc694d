import FieldRules.Proofs.Calls
import FieldRules.Proofs.Compilation
import FieldRules.Proofs.Encoding

/-!
# Predicates from a cache are those compiled afresh

A compiler that knows lists by their content may answer a call with a predicate that was
made from another list, long ago.  What the call gives is the same all the same: the
predicate, or the error, that the list compiles to without any cache.

The reason is an invariant of the caches: every entry was compiled from some list of the
session with the digest in its key, against the schema that the entry's predicate holds.
Lists with one digest agree in their content, so that they are compiled alike; and the
schema of a call is the one that an entry under the call's key holds.  For the schemas of
record types this is so by the keys alone.  A supplied schema is known by an address, and
here the allocator is trusted for what it promises: a table that is still held by a
cached predicate does not share its address with another table.  Once the predicates are
cleared away, the address may be given to another one.

**Results.**
* `Compiler.Serves.sound`: calls keep the invariant.
* `Compiler.Serves.verdict_eq`: under the invariant, a call gives what is compiled afresh.
* `Session.run_eq_afresh`: so does every call of a session.
* `Session.admitsAll_of_unshared`: the allocator keeps its promise if no address is shared.
-/

namespace FieldRules

section Verdicts

variable {κ δ : Type} [RecordTypes κ]

/-- What a call comes to: a predicate on the records of some type, or an error. -/
abbrev Verdict (κ : Type) [RecordTypes κ] : Type :=
  Except CompileError ((record : κ) × Predicate (RecordTypes.Record record))

/-- What a job comes to without any compiler. -/
def Job.verdict (formats : List String) (j : Job κ) : Verdict κ :=
  (j.afresh formats).map (Sigma.mk j.record)

/-- What a call comes to. -/
def Call.verdict {record : κ} (call : Call κ δ record) : Verdict κ :=
  call.outcome.map fun object => ⟨record, object.predicate⟩

/-- What the call in an answer comes to. -/
def Response.verdict? : Response κ δ → Option (Verdict κ)
  | .compiled returned _ => some (.ok ⟨returned.record, returned.object.predicate⟩)
  | .failed e _ => some (.error e)
  | .cleared | .noCompiler => none

/-- What the call in a request comes to, if its list is compiled with the options of the
compiler that is asked, but without its cache. -/
def Request.afresh? (options : List Options) (r : Request κ) : Option (Verdict κ) :=
  match options[r.compiler]?, r.job? with
  | some o, some j => some (j.verdict o.dateFormats)
  | _, _ => none

@[simp] theorem Response.verdict?_ofCall {record : κ} (call : Call κ δ record) :
    (ofCall call).verdict? = some call.verdict := by
  unfold ofCall Call.verdict
  cases call.outcome <;> rfl

end Verdicts

section Invariant

variable {κ δ : Type} [RecordTypes κ] [Digest δ]

/-- An entry of a cache is sound if its predicate was compiled from some list with the
digest in its key, against the schema that the predicate holds, and if this schema is
known by the key. -/
structure CacheEntry.Sound (o : Options) (lists : List (List Condition))
    (e : CacheEntry κ δ) : Prop where
  source : e.object.source = e.key.schema
  own : e.key.schema = .own → e.object.predicate.schema = RecordTypes.schema e.key.record
  compiled : ∃ cs ∈ lists, Condition.digest δ o.keyMode cs = e.key.digest ∧
    Predicate.compile e.object.predicate.schema o.dateFormats cs = .ok e.object.predicate

/-- The cache of a compiler has sound entries only. -/
def Compiler.Sound (lists : List (List Condition)) (c : Compiler κ δ) : Prop :=
  ∀ e ∈ c.cache.entries, e.Sound c.options lists

/-- The compilers of a session have some options, and sound caches. -/
structure Session.Sound (options : List Options) (lists : List (List Condition))
    (s : Session κ δ) : Prop where
  options : s.compilers.map Compiler.options = options
  caches : ∀ c ∈ s.compilers, c.Sound lists

end Invariant

section Addresses

variable {κ δ : Type} [RecordTypes κ]

/-- A cached predicate of a compiler holds a table at an address. -/
def Compiler.Holds (c : Compiler κ δ) {record : κ} (h : Handle (RecordTypes.Record record)) :
    Prop :=
  ∃ source digest object name,
    (⟨⟨record, source, digest⟩, object⟩ : CacheEntry κ δ) ∈ c.cache.entries ∧
      object.source = .supplied name h.address ∧ object.predicate.schema = h.schema

/-- A cached predicate of a session holds a table at an address. -/
def Session.Holds (s : Session κ δ) {record : κ} (h : Handle (RecordTypes.Record record)) :
    Prop :=
  ∃ c ∈ s.compilers, c.Holds h

/-- The allocator keeps its promise in a step: the table that a request supplies does not
share its address with another table which is still held. -/
def Session.Admits (s : Session κ δ) : Request κ → Prop
  | .compileWith _ record handle _ =>
      ∀ held : Handle (RecordTypes.Record record), s.Holds held →
        held.address = handle.address → held.schema = handle.schema
  | _ => True

/-- No two tables that are supplied in requests share an address, as when all of them stay
alive. -/
def Request.Unshared (rs : List (Request κ)) : Prop :=
  ∀ {record : κ} {h k : Handle (RecordTypes.Record record)} {i j : Nat}
    {as bs : List Condition}, .compileWith i record h as ∈ rs →
      .compileWith j record k bs ∈ rs → h.address = k.address → h = k

variable [DecidableEq κ] [DecidableEq δ] [Digest δ]

/-- The allocator keeps its promise in every step of a session. -/
def Session.AdmitsAll (s : Session κ δ) : List (Request κ) → Prop
  | [] => True
  | r :: rs => s.Admits r ∧ (s.perform r).2.AdmitsAll rs

end Addresses

variable {κ δ : Type} [RecordTypes κ] [DecidableEq κ] [DecidableEq δ] [Digest δ]
variable {lists : List (List Condition)}

namespace Compiler

variable {c : Compiler κ δ} {serial : Nat} {j : Job κ} {call : Call κ δ j.record}

/-- A call keeps the entries of a cache sound. -/
theorem Serves.sound (h : c.Serves serial j call) (hc : c.Sound lists)
    (hj : j.conditions ∈ lists) : call.compiler.Sound lists := by
  cases h with
  | found => exact hc
  | @made p _ compiled =>
      have hschema : p.schema = j.schema := Predicate.schema_of_compile compiled
      intro e he
      rcases List.mem_cons.mp he with rfl | he
      · refine ⟨rfl, fun hown => hschema.trans (j.own hown), j.conditions, hj, rfl, ?_⟩
        rw [hschema]
        exact compiled
      · exact hc e he
  | failed => exact hc

/-- A call of a compiler that goes by content gives what its list compiles to afresh, if
the entries under its key hold the schema of the call. -/
theorem Serves.verdict_eq (h : c.Serves serial j call) (hc : c.Sound lists)
    (hmode : c.options.keyMode = .content) (hdigest : Digest.Separates δ .content lists)
    (hfits : ∀ cs ∈ lists, Condition.ListFits cs) (hj : j.conditions ∈ lists)
    (hschema : ∀ digest object,
      (⟨⟨j.record, j.source, digest⟩, object⟩ : CacheEntry κ δ) ∈ c.cache.entries →
        object.predicate.schema = j.schema) :
    call.verdict = j.verdict c.options.dateFormats := by
  cases h with
  | @found p stored =>
      have hmem := Cache.mem_of_find? stored
      obtain ⟨cs, hcs, hsame, hcompile⟩ := (hc _ hmem).compiled
      rw [hschema _ p hmem] at hcompile
      -- the predicate was made from another list; its digest is all that is known of it
      have hagree : KeyMode.content.Agree j.conditions cs := by
        refine hdigest.agree hfits hj hcs ?_
        rw [← hmode]
        exact hsame.symm
      have hafresh : j.afresh c.options.dateFormats = .ok p.predicate :=
        (Predicate.compile_eq_of_agree _ _ hagree).trans hcompile
      rw [Call.verdict, Job.verdict, hafresh]
      rfl
  | made _ compiled =>
      rw [Call.verdict, Job.verdict, compiled]
      rfl
  | failed _ refused =>
      rw [Call.verdict, Job.verdict, refused]
      rfl

/-- A table that is held after a call was held before it, or is that of the call. -/
theorem Serves.holds (h : c.Serves serial j call) {record : κ}
    {held : Handle (RecordTypes.Record record)} (hheld : call.compiler.Holds held) :
    c.Holds held ∨ ∃ name address, j.source = .supplied name address ∧
      (⟨record, held⟩ : (k : κ) × Handle (RecordTypes.Record k)) =
        ⟨j.record, address, j.schema⟩ := by
  obtain ⟨source, digest, object, name, he, hsource, hschema⟩ := hheld
  cases h with
  | found => exact .inl ⟨source, digest, object, name, he, hsource, hschema⟩
  | failed => exact .inl ⟨source, digest, object, name, he, hsource, hschema⟩
  | made _ compiled =>
      rcases List.mem_cons.mp he with heq | he
      · cases heq
        have htable : held.schema = j.schema :=
          hschema.symm.trans (Predicate.schema_of_compile compiled)
        exact .inr ⟨name, held.address, hsource, by rw [← htable]⟩
      · exact .inl ⟨source, digest, object, name, he, hsource, hschema⟩

end Compiler

namespace Session

variable {options : List Options} {s : Session κ δ} {r : Request κ}
  {x : Response κ δ × Session κ δ}

omit [DecidableEq κ] [DecidableEq δ] in
/-- Entries under the key of a request hold the schema of the request. -/
theorem Sound.schema_eq (hs : s.Sound options lists) (hadmits : s.Admits r) {c : Compiler κ δ}
    (hc : c ∈ s.compilers) {j : Job κ} (hj : r.job? = some j) {digest : δ}
    {object : Shared (RecordTypes.Record j.record)}
    (he : (⟨⟨j.record, j.source, digest⟩, object⟩ : CacheEntry κ δ) ∈ c.cache.entries) :
    object.predicate.schema = j.schema := by
  have hsound := hs.caches c hc _ he
  cases r with
  | clear compiler => cases hj
  | compile compiler record conditions =>
      cases hj
      exact hsound.own rfl
  | compileWith compiler record handle conditions =>
      cases hj
      exact hadmits ⟨handle.address, object.predicate.schema⟩
        ⟨c, hc, handle.key, digest, object, _, he, hsound.source, rfl⟩ rfl

theorem Steps.sound (h : s.Steps r x) (hs : s.Sound options lists)
    (hlists : ∀ j, r.job? = some j → j.conditions ∈ lists) : x.2.Sound options lists := by
  cases h with
  | idle => exact ⟨hs.options, hs.caches⟩
  | @cleared c present =>
      have hclear : c.clear.options = c.options := rfl
      refine ⟨(options_record present hclear).trans hs.options, fun d hd => ?_⟩
      rcases mem_record hd with hd | rfl
      · exact hs.caches d hd
      · intro e he
        cases he
  | @served c j call present asked serves =>
      have hc : c ∈ s.compilers := List.mem_of_getElem? present
      refine ⟨(options_record present serves.options_eq).trans hs.options, fun d hd => ?_⟩
      rcases mem_record hd with hd | rfl
      · exact hs.caches d hd
      · exact serves.sound (hs.caches c hc) (hlists j asked)

/-- A step of a sound session comes to what is compiled afresh. -/
theorem Steps.verdict_eq (h : s.Steps r x) (hs : s.Sound options lists)
    (hmode : ∀ o ∈ options, o.keyMode = .content)
    (hdigest : Digest.Separates δ .content lists)
    (hfits : ∀ cs ∈ lists, Condition.ListFits cs)
    (hlists : ∀ j, r.job? = some j → j.conditions ∈ lists) (hadmits : s.Admits r) :
    x.1.verdict? = r.afresh? options := by
  have hoptions : options[r.compiler]? = (s.compilers[r.compiler]?).map Compiler.options := by
    rw [← hs.options, List.getElem?_map]
  unfold Request.afresh?
  cases h with
  | idle absent =>
      rw [hoptions, absent]
      rfl
  | cleared present clearing =>
      rw [hoptions, present, clearing]
      rfl
  | @served c j call present asked serves =>
      have hc : c ∈ s.compilers := List.mem_of_getElem? present
      have hcontent : c.options.keyMode = .content :=
        hmode c.options (hs.options ▸ List.mem_map_of_mem hc)
      rw [hoptions, present, asked, Response.verdict?_ofCall]
      exact congrArg some (serves.verdict_eq (hs.caches c hc) hcontent hdigest hfits
        (hlists j asked) (fun _ _ he => hs.schema_eq hadmits hc asked he))

/-- Every call of a session that starts soundly comes to what is compiled afresh. -/
theorem Sound.run_verdicts {rs : List (Request κ)} (hs : s.Sound options lists)
    (hmode : ∀ o ∈ options, o.keyMode = .content)
    (hdigest : Digest.Separates δ .content lists)
    (hfits : ∀ cs ∈ lists, Condition.ListFits cs)
    (hlists : ∀ r ∈ rs, ∀ j, r.job? = some j → j.conditions ∈ lists)
    (hadmits : s.AdmitsAll rs) :
    (s.run rs).1.map Response.verdict? = rs.map (Request.afresh? options) := by
  induction rs generalizing s with
  | nil => rfl
  | cons r rs ih =>
      obtain ⟨hnow, hlater⟩ := hadmits
      have hr := hlists r List.mem_cons_self
      have hstep := s.perform_steps r
      have hverdict := hstep.verdict_eq hs hmode hdigest hfits hr hnow
      have hrest := ih (hstep.sound hs hr)
        (fun q hq => hlists q (List.mem_cons_of_mem r hq)) hlater
      rw [run, List.map_cons, List.map_cons, ← hverdict, ← hrest]

omit [DecidableEq κ] [DecidableEq δ] in
theorem sound_start (options : List Options) :
    (start options : Session κ δ).Sound options lists := by
  constructor
  · simp [start, Function.comp_def]
  · intro c hc e he
    obtain ⟨o, -, rfl⟩ := List.mem_map.mp hc
    cases he

/-- A table that is held after a step was held before it, or has been supplied in it. -/
theorem Steps.holds (h : s.Steps r x) {record : κ} {held : Handle (RecordTypes.Record record)}
    (hx : x.2.Holds held) :
    s.Holds held ∨ ∃ index cs, r = .compileWith index record held cs := by
  obtain ⟨d, hd, hheld⟩ := hx
  cases h with
  | idle => exact .inl ⟨d, hd, hheld⟩
  | cleared =>
      rcases mem_record hd with hd | rfl
      · exact .inl ⟨d, hd, hheld⟩
      · obtain ⟨_, _, _, _, he, _⟩ := hheld
        cases he
  | @served c j call present asked serves =>
      rcases mem_record hd with hd | rfl
      · exact .inl ⟨d, hd, hheld⟩
      · rcases serves.holds hheld with hheld | ⟨name, address, hsource, htable⟩
        · exact .inl ⟨c, List.mem_of_getElem? present, hheld⟩
        · cases htable
          exact .inr (Request.eq_compileWith asked hsource)

omit [DecidableEq κ] [DecidableEq δ] [Digest δ] in
theorem not_holds_start {record : κ} {held : Handle (RecordTypes.Record record)} :
    ¬ (start options : Session κ δ).Holds held := by
  rintro ⟨c, hc, _, _, _, _, he, _⟩
  obtain ⟨o, -, rfl⟩ := List.mem_map.mp hc
  cases he

theorem admitsAll_of_held {rs qs : List (Request κ)} (hsub : ∀ r ∈ rs, r ∈ qs)
    (hqs : Request.Unshared qs)
    (hheld : ∀ (record : κ) (h : Handle (RecordTypes.Record record)), s.Holds h →
      ∃ i cs, .compileWith i record h cs ∈ qs) : s.AdmitsAll rs := by
  induction rs generalizing s with
  | nil => exact trivial
  | cons r rs ih =>
      have hr : r ∈ qs := hsub r List.mem_cons_self
      refine ⟨?_, ih (fun q hq => hsub q (List.mem_cons_of_mem r hq)) ?_⟩
      · cases r with
        | compileWith index record handle conditions =>
            intro held hs haddress
            obtain ⟨i, cs, hi⟩ := hheld record held hs
            exact congrArg Handle.schema (hqs hi hr haddress)
        | _ => exact trivial
      · intro record h hs
        rcases (s.perform_steps r).holds hs with hs | ⟨i, cs, rfl⟩
        · exact hheld record h hs
        · exact ⟨i, cs, hr⟩

/-- If no address is shared, then the allocator keeps its promise. -/
theorem admitsAll_of_unshared {rs : List (Request κ)} (h : Request.Unshared rs) :
    (start options : Session κ δ).AdmitsAll rs :=
  admitsAll_of_held (fun _ hr => hr) h (fun _ _ hs => absurd hs not_holds_start)

/-- **A cache that goes by content cannot be noticed.**  In a session of compilers that
all go by content, with options of their own, every call comes to what its list compiles
to afresh: the same predicate, or the same error.  Digests do not collide on the lists of
the session, whose lengths fit, and the allocator keeps its promise. -/
theorem run_eq_afresh {requests : List (Request κ)}
    (hmode : ∀ o ∈ options, o.keyMode = .content)
    (hdigest : Digest.Separates δ .content (Request.lists requests))
    (hfits : ∀ cs ∈ Request.lists requests, Condition.ListFits cs)
    (hadmits : (start options : Session κ δ).AdmitsAll requests) :
    ((start options : Session κ δ).run requests).1.map Response.verdict? =
      requests.map (Request.afresh? options) :=
  (sound_start options).run_verdicts hmode hdigest hfits
    (fun _ hr _ hj => Request.mem_lists hr hj) hadmits

end Session

/-- The record types of a small plant: gauges, and dials that show a level only. -/
inductive Device
  | gauge
  | dial
deriving DecidableEq

namespace Device

instance : RecordTypes Device where
  Record
    | gauge => Gauge
    | dial => Int64
  schema
    | gauge => Gauge.schema
    | dial => .build "Dial" [⟨"level", .int, id⟩]

/-- Another field table for gauges, with the names of their own one. -/
def inverted : Schema Gauge :=
  .build "Gauge"
    [⟨"level", .int, fun g => -g.level⟩, ⟨"load", .float, Gauge.load⟩,
      ⟨"state", .enum Gauge.states, Gauge.state⟩]

/-- A list of one condition, on the level of a gauge or a dial. -/
def low : List Condition := [(Condition.on "level" .lessThan).withValue "3"]

/-- The test that the condition on a level is compiled to. -/
def lowTest : Expr := .compare 0 "level" .less (.int 3)

/-- A session in which a table is supplied twice, an own schema does not have the field
asked for, and the address of the table is given to another one after a clearing. -/
def requests : List (Request Device) :=
  [.compileWith 0 .gauge ⟨7, Gauge.schema⟩ low,
    .compileWith 0 .gauge ⟨7, Gauge.schema⟩ (low.map (Condition.withDataType "any")),
    .compile 0 .dial low,
    .compile 0 .dial [Condition.on "load" .equals],
    .clear 0,
    .compileWith 0 .gauge ⟨7, inverted⟩ low]

theorem admitsAll_requests :
    (Session.start [{}] : Session Device Blake3.Hash).AdmitsAll requests := by
  refine ⟨?_, ?_, trivial, trivial, trivial, ?_, trivial⟩
  · intro held hs
    exact absurd hs Session.not_holds_start
  · intro held hs _
    rcases (Session.perform_steps _ _).holds hs with hs | ⟨index, cs, hr⟩
    · exact absurd hs Session.not_holds_start
    · cases hr
      rfl
  · intro held ⟨d, hd, _, _, _, _, he, _⟩
    cases List.mem_singleton.mp hd
    cases he

/-- The session gives what is compiled afresh, in the end through the other table. -/
theorem run_requests :
    ((Session.start [{}] : Session Device Blake3.Hash).run requests).1.map Response.verdict? =
      [some (.ok ⟨.gauge, Gauge.schema, lowTest⟩), some (.ok ⟨.gauge, Gauge.schema, lowTest⟩),
        some (.ok ⟨.dial, RecordTypes.schema dial, lowTest⟩),
        some (.error (.fault ⟨0, []⟩ (.unknownField "load" "Dial"))), none,
        some (.ok ⟨.gauge, inverted, lowTest⟩)] :=
  Session.run_eq_afresh (by decide) (by unfold Digest.Separates; decide +kernel) (by decide)
    admitsAll_requests

end Device

end FieldRules
