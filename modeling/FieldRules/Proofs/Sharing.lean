import FieldRules.Proofs.Lifetimes
import FieldRules.Proofs.History
import FieldRules.Proofs.Traces

/-!
# When two calls return one predicate

A compiler keeps every predicate that it returns until it is cleared, and what it keeps has
been made for a call with the same key since it was last cleared.  So two calls return one
predicate if and only if one compiler has answered both, without a clearing in between, and
keys do not tell the calls apart.

Keys tell apart record types, and the lists as far as the key mode goes.  Schemas they tell
apart by addresses: a supplied table is never taken for that of the record type, nor for
another table, even one with the same name and the same fields.

**Results.**
* `Session.Turn.accounts`: steps keep entries and answers together.
* `Session.run_origin`: what is returned has been made by a call of the same key.
* `Session.run_shares_iff`: when two calls of a session return one predicate.
-/

namespace FieldRules

theorem getElem?_concat_eq_some {α : Type} {as : List α} {a b : α} {k : Nat}
    (h : (as ++ [a])[k]? = some b) : as[k]? = some b ∨ k = as.length ∧ a = b := by
  rcases Nat.lt_trichotomy k as.length with hk | rfl | hk
  · rw [List.getElem?_append_left hk] at h
    exact .inl h
  · rw [List.getElem?_concat_length] at h
    exact .inr ⟨rfl, Option.some.inj h⟩
  · have hlength : (as ++ [a]).length ≤ k := by
      rw [List.length_append]
      exact hk
    rw [List.getElem?_eq_none hlength] at h
    cases h

section Clearings

variable {κ δ : Type} [RecordTypes κ] {done later : List (Request κ × Response κ δ)}
  {r : Request κ} {a : Response κ δ} {index place : Nat}

/-- Two requests are for jobs that look the same under a key mode. -/
def Request.Like (mode : KeyMode) (q r : Request κ) : Prop :=
  ∃ i j, q.job? = some i ∧ r.job? = some j ∧ i.Like mode j

/-- No step after a place has cleared a compiler. -/
def Request.Uncleared (index place : Nat) (done : List (Request κ × Response κ δ)) : Prop :=
  ∀ k a, place < k → done[k]? ≠ some (.clear index, a)

theorem Request.Uncleared.of_initial (h : Uncleared index place later)
    (hinitial : done <+: later) : Uncleared index place done :=
  fun k a hk hclear => h k a hk <| getElem?_of_prefix hinitial hclear

theorem Request.Uncleared.concat (h : Uncleared index place done) (hr : r ≠ .clear index) :
    Uncleared index place (done ++ [(r, a)]) := by
  intro k a hk hclear
  rcases getElem?_concat_eq_some hclear with hclear | ⟨-, heq⟩
  · exact h k a hk hclear
  · exact hr (congrArg Prod.fst heq)

theorem Request.uncleared_of_length_le (h : done.length ≤ place + 1) :
    Uncleared index place done := by
  intro k a hk hclear
  have hlt := (List.getElem?_eq_some_iff.mp hclear).1
  omega

end Clearings

variable {κ δ : Type} [RecordTypes κ]

/-- The predicate of an entry, as it is returned. -/
def CacheEntry.returned (e : CacheEntry κ δ) : Returned κ := ⟨e.key.record, e.object⟩

variable [DecidableEq κ] [DecidableEq δ]

/-- An entry is the one that is found under its key. -/
def Cache.Finds (c : Cache κ δ) (e : CacheEntry κ δ) : Prop :=
  find? e.key c.entries = some e.object

theorem Cache.Finds.eq {c : Cache κ δ} {e f : CacheEntry κ δ} (he : c.Finds e)
    (hf : c.Finds f) (hkey : e.key = f.key) : e = f := by
  obtain ⟨key, object⟩ := e
  obtain ⟨key', object'⟩ := f
  subst hkey
  obtain rfl : object = object' := Option.some.inj (Eq.trans he.symm hf)
  rfl

variable [Digest δ]

namespace Compiler

variable {c d : Compiler κ δ} {serial : Nat} {j : Job κ} {call : Call κ δ j.record}
  {done : List (Request κ × Response κ δ)} {index : Nat} {e : CacheEntry κ δ}

omit [DecidableEq κ] [DecidableEq δ] in
/-- Keys depend on the options of a compiler only. -/
theorem keyOf_congr (h : c.options = d.options) (j : Job κ) : c.keyOf j = d.keyOf j := by
  unfold keyOf key
  rw [h]

/-- What a call returns is then found under its key. -/
theorem Serves.finds_returned (h : c.Serves serial j call) {p : Returned κ}
    {log : List (LogEntry δ)} (hp : Response.ofCall call = .compiled p log) :
    ∃ e : CacheEntry κ δ, c.keyOf j = e.key ∧ p = e.returned ∧ call.compiler.cache.Finds e := by
  cases h with
  | @found object stored =>
      cases hp
      exact ⟨⟨c.keyOf j, object⟩, rfl, rfl, stored⟩
  | made missing =>
      cases hp
      exact ⟨⟨c.keyOf j, _⟩, rfl, rfl, Cache.find?_insert_self _ _ _⟩
  | failed => cases hp

/-- What is found before a call is found after it. -/
theorem Serves.finds (h : c.Serves serial j call) (he : c.cache.Finds e) :
    call.compiler.cache.Finds e := by
  cases h with
  | found => exact he
  | made missing =>
      have hkey : c.keyOf j ≠ e.key := by
        obtain ⟨key, object⟩ := e
        rintro rfl
        cases Eq.trans missing.symm he
      exact (Cache.find?_insert_of_ne hkey _).trans he
  | failed => exact he

/-- An entry after a call was there before, or the call has made and returned it. -/
theorem Serves.entry (h : c.Serves serial j call) (he : e ∈ call.compiler.cache.entries) :
    e ∈ c.cache.entries ∨ c.keyOf j = e.key ∧ e.object.serial = serial ∧
      ∃ log, Response.ofCall call = .compiled e.returned log := by
  cases h with
  | found => exact .inl he
  | made =>
      rcases List.mem_cons.mp he with rfl | he
      · exact .inr ⟨rfl, rfl, _, rfl⟩
      · exact .inl he
  | failed => exact .inl he

/-- A compiler keeps a predicate under the key of a request. -/
def Keeps (c : Compiler κ δ) (q : Request κ) (p : Returned κ) : Prop :=
  ∃ (j : Job κ) (e : CacheEntry κ δ), q.job? = some j ∧ c.keyOf j = e.key ∧ p = e.returned ∧
    c.cache.Finds e

/-- An entry has been made and returned in the step with its number, for a job with its key,
and the compiler has not been cleared since. -/
def Stems (c : Compiler κ δ) (index : Nat) (done : List (Request κ × Response κ δ))
    (e : CacheEntry κ δ) : Prop :=
  ∃ q j log, done[e.object.serial]? = some (q, .compiled e.returned log) ∧ q.compiler = index ∧
    q.job? = some j ∧ c.keyOf j = e.key ∧ Request.Uncleared index e.object.serial done

/-- A compiler accounts for its entries by its answers: every entry stems from a step, and
what steps have returned since the last clearing is kept. -/
structure Accounts (index : Nat) (done : List (Request κ × Response κ δ))
    (c : Compiler κ δ) : Prop where
  stems : ∀ e ∈ c.cache.entries, c.Stems index done e
  keeps : ∀ place q p log, done[place]? = some (q, .compiled p log) → q.compiler = index →
    Request.Uncleared index place done → c.Keeps q p

omit [DecidableEq κ] [DecidableEq δ] in
/-- The origin of an entry is kept until its cache is cleared. -/
theorem Stems.concat (h : c.Stems index done e) {r : Request κ} {a : Response κ δ}
    (hr : r ≠ .clear index) : c.Stems index (done ++ [(r, a)]) e := by
  obtain ⟨q, j, log, horigin, hq, hj, hkey, huncleared⟩ := h
  exact ⟨q, j, log, getElem?_of_prefix (List.prefix_append done _) horigin, hq, hj, hkey,
    huncleared.concat hr⟩

/-- A call is accounted for. -/
theorem Accounts.serve (hc : c.Accounts index done) (h : c.Serves done.length j call)
    {r : Request κ} (hr : r.compiler = index) (hj : r.job? = some j) :
    call.compiler.Accounts index (done ++ [(r, .ofCall call)]) := by
  have hne : r ≠ .clear index := by
    rintro rfl
    cases hj
  have hkeys : ∀ i, c.keyOf i = call.compiler.keyOf i := keyOf_congr h.options_eq.symm
  refine ⟨fun e he => ?_, fun place q p log hanswer hq hplace => ?_⟩
  · rcases h.entry he with he | ⟨hkey, hserial, log, hreturned⟩
    · obtain ⟨q, i, log, horigin, hq, hi, hkey, huncleared⟩ := (hc.stems e he).concat hne
      exact ⟨q, i, log, horigin, hq, hi, (hkeys i).symm.trans hkey, huncleared⟩
    · refine ⟨r, j, log, ?_, hr, hj, (hkeys j).symm.trans hkey,
        Request.uncleared_of_length_le ?_⟩
      · rw [hserial, List.getElem?_concat_length, hreturned]
      · rw [hserial, List.length_append, List.length_singleton]
  · rcases getElem?_concat_eq_some hanswer with hanswer | ⟨-, heq⟩
    · obtain ⟨i, e, hi, hkey, hp, he⟩ := hc.keeps place q p log hanswer hq
        (hplace.of_initial (List.prefix_append done _))
      exact ⟨i, e, hi, (hkeys i).symm.trans hkey, hp, h.finds he⟩
    · obtain ⟨rfl, hp⟩ := Prod.mk.inj heq
      obtain ⟨e, hkey, hreturned, he⟩ := h.finds_returned hp
      exact ⟨j, e, hj, (hkeys j).symm.trans hkey, hreturned, he⟩

end Compiler

namespace Session

section Steps

variable {s : Session κ δ} {r : Request κ} {index : Nat} {c d : Compiler κ δ}
  {a : Response κ δ} {done : List (Request κ × Response κ δ)}

/-- Whatever a step is for a compiler, entries and answers stay together. -/
theorem Turn.accounts (h : s.Turn r index c a d) (hlength : done.length = s.returned.length)
    (hc : c.Accounts index done) : d.Accounts index (done ++ [(r, a)]) := by
  have hinitial := List.prefix_append done [(r, a)]
  cases h with
  | elsewhere other =>
      have hr : r ≠ .clear index := by
        rintro rfl
        exact other rfl
      refine ⟨fun e he => (hc.stems e he).concat hr, fun place q p log hanswer hq hplace => ?_⟩
      rcases getElem?_concat_eq_some hanswer with hanswer | ⟨-, heq⟩
      · exact hc.keeps place q p log hanswer hq (hplace.of_initial hinitial)
      · cases heq
        exact absurd hq other
  | cleared own clearing =>
      subst own
      refine ⟨fun e he => absurd he List.not_mem_nil,
        fun place q p log hanswer hq hplace => ?_⟩
      rcases getElem?_concat_eq_some hanswer with hanswer | ⟨-, heq⟩
      · have hlt := (List.getElem?_eq_some_iff.mp hanswer).1
        refine absurd ?_ (hplace done.length .cleared hlt)
        rw [List.getElem?_concat_length, ← Request.eq_clear clearing]
      · cases heq
  | served own asked serves => exact hc.serve (hlength ▸ serves) own asked

end Steps

section Runs

variable {options : List Options} {requests : List (Request κ)} {index m n : Nat}
  {c : Compiler κ δ} {q r : Request κ} {p p' : Returned κ} {log log' : List (LogEntry δ)}

/-- After any requests, every compiler accounts for its entries. -/
theorem accounts_run (options : List Options) (requests : List (Request κ))
    (hc : ((start options).run requests).2.compilers[index]? = some c) :
    c.Accounts index ((start options).trace requests) := by
  have hall := run_induction (s := (start options : Session κ δ))
    (motive := fun done t => done.length = t.returned.length ∧ ∀ (index : Nat)
      (c : Compiler κ δ), t.compilers[index]? = some c → c.Accounts index done) ?_ ?_ requests
  · exact hall.2 index c hc
  · refine ⟨rfl, fun index c hc => ?_⟩
    refine ⟨fun e he => ?_, nofun⟩
    rw [cache_of_start hc] at he
    cases he
  · rintro done t r x hstep ⟨hlength, hall⟩
    refine ⟨?_, fun index d hd => ?_⟩
    · rw [hstep.length_returned, ← hlength, List.length_append, List.length_singleton]
    · obtain ⟨c, hc, hturn⟩ := hstep.turn_of_after hd
      exact hturn.accounts hlength (hall index c hc)

theorem run_options (options : List Options) (requests : List (Request κ)) :
    ((start options : Session κ δ).run requests).2.compilers.map Compiler.options = options :=
  (run_follows (follows_start options (Request.lists requests))
    fun _ hr _ hj => Request.mem_lists hr hj).sound.options

/-- What a step has returned, the compiler keeps then. -/
theorem run_keeps (hq : ((start options).trace requests)[m]? = some (q, .compiled p log)) :
    ∃ c : Compiler κ δ, options[q.compiler]? = some c.options ∧ c.Keeps q p ∧
      c.Accounts q.compiler ((start options).trace (requests.take (m + 1))) := by
  obtain ⟨htake, hanswer⟩ := trace_step hq
  obtain ⟨c, hc⟩ : ∃ c, ((start options : Session κ δ).run
      (requests.take (m + 1))).2.compilers[q.compiler]? = some c := by
    have hstep := ((start options : Session κ δ).run (requests.take m)).2.perform_steps q
    rw [htake, run_concat]
    exact hstep.exists_compiler (by rw [← hanswer]; nofun)
  have haccounts := accounts_run options (requests.take (m + 1)) hc
  refine ⟨c, ?_, ?_, haccounts⟩
  · rw [← run_options (δ := δ) options (requests.take (m + 1)), List.getElem?_map, hc]
    rfl
  · refine haccounts.keeps m q p log ?_ rfl (Request.uncleared_of_length_le ?_)
    · rw [trace_take, List.getElem?_take_of_lt (Nat.lt_succ_self m), hq]
    · rw [length_trace]
      exact List.length_take_le _ _

/-- What a step returns has been made by a step for the same key, which may be this one, and
the compiler has not been cleared since. -/
theorem run_origin (hq : ((start options).trace requests)[m]? = some (q, .compiled p log)) :
    ∃ (c : Compiler κ δ) (q₀ : Request κ) (j₀ j : Job κ) (log₀ : List (LogEntry δ)),
      options[q.compiler]? = some c.options ∧ q.job? = some j ∧ q₀.job? = some j₀ ∧
        c.keyOf j₀ = c.keyOf j ∧ q₀.compiler = q.compiler ∧
        ((start options).trace requests)[p.object.serial]? = some (q₀, .compiled p log₀) ∧
        p.object.serial ≤ m ∧
        ∀ k, p.object.serial < k → k ≤ m → requests[k]? ≠ some (.clear q.compiler) := by
  obtain ⟨c, hoptions, ⟨j, e, hj, hkey, rfl, he⟩, haccounts⟩ := run_keeps hq
  obtain ⟨q₀, j₀, log₀, horigin, hcompiler, hj₀, hkey₀, huncleared⟩ :=
    haccounts.stems e (Cache.mem_of_find? he)
  have hlt : e.object.serial < m + 1 := by
    have hlength := (List.getElem?_eq_some_iff.mp horigin).1
    rw [length_trace] at hlength
    exact Nat.lt_of_lt_of_le hlength (List.length_take_le _ _)
  rw [trace_take] at horigin huncleared
  refine ⟨c, q₀, j₀, j, log₀, hoptions, hj, hj₀, hkey₀.trans hkey.symm, hcompiler, ?_,
    Nat.le_of_lt_succ hlt, fun k hk hkm hclear => ?_⟩
  · rw [List.getElem?_take_of_lt hlt] at horigin
    exact horigin
  · obtain ⟨a, ha⟩ := exists_trace (s := (start options : Session κ δ)) hclear
    refine huncleared k a hk ?_
    rw [List.getElem?_take_of_lt (Nat.lt_succ_of_le hkm), ha]

variable {o : Options} {j : Job κ}

/-- What a step returns reads through the schema of its request. -/
theorem run_schema (hq : ((start options).trace requests)[m]? = some (q, .compiled p log))
    (hj : q.job? = some j) (ho : options[q.compiler]? = some o)
    (hdigest : Digest.Separates δ o.keyMode (Request.lists requests))
    (hfits : ∀ cs ∈ Request.lists requests, Condition.ListFits cs)
    (hadmits : (start options : Session κ δ).AdmitsAll requests) :
    ∃ f : Predicate (RecordTypes.Record j.record), f.schema = j.schema ∧
      (⟨p.record, p.object.predicate⟩ :
        (record : κ) × Predicate (RecordTypes.Record record)) = ⟨j.record, f⟩ := by
  obtain ⟨before, after, rfl, rfl⟩ : ∃ before after,
      requests = before ++ q :: after ∧ before.length = m := by
    have hlt := (List.getElem?_eq_some_iff.mp hq).1
    rw [length_trace] at hlt
    refine ⟨requests.take m, requests.drop (m + 1), ?_, ?_⟩
    · rw [List.append_cons, ← (trace_step hq).1, List.take_append_drop]
    · rw [List.length_take, Nat.min_eq_left (Nat.le_of_lt hlt)]
  obtain ⟨answer, v, hanswer, hv, hsettled⟩ := run_settled hj ho hdigest hfits hadmits
  obtain rfl : .compiled p log = answer :=
    Option.some.inj ((List.getElem?_zip_eq_some.mp hq).2.symm.trans hanswer)
  cases hsettled with
  | @earliest _ _ k f _ like compiled =>
      have hp := Except.ok.inj (Option.some.inj hv)
      obtain ⟨record, schema, source, own, conditions⟩ := k
      cases like.1
      exact ⟨f, Predicate.schema_of_compile compiled, hp⟩
  | refused => cases hv

/-- What a compiler has returned for a job, it returns for jobs that look the same, until it
is cleared. -/
theorem run_returned_of_like (hmn : m < n)
    (hq : ((start options).trace requests)[m]? = some (q, .compiled p log))
    (hr : ((start options).trace requests)[n]? = some (r, .compiled p' log'))
    (ho : options[r.compiler]? = some o) (hcompiler : q.compiler = r.compiler)
    (hbetween : ∀ k, m < k → k < n → requests[k]? ≠ some (.clear r.compiler))
    (hlike : q.Like o.keyMode r) : p = p' := by
  obtain ⟨c, hoptions, ⟨j, f, hj, hkeyf, rfl, hf⟩, haccounts⟩ := run_keeps hr
  rw [trace_take] at haccounts
  have huncleared : Request.Uncleared r.compiler m
      (((start options : Session κ δ).trace requests).take (n + 1)) := by
    intro k a hk hclear
    have hlt := (List.getElem?_eq_some_iff.mp hclear).1
    rw [List.length_take] at hlt
    have hkn : k < n + 1 := Nat.lt_of_lt_of_le hlt (Nat.min_le_left _ _)
    rw [List.getElem?_take_of_lt hkn] at hclear
    rcases Nat.lt_succ_iff_lt_or_eq.mp hkn with hlater | rfl
    · exact hbetween k hk hlater (List.getElem?_zip_eq_some.mp hclear).1
    · have hclearing : r = .clear r.compiler :=
        congrArg Prod.fst (Option.some.inj (hr.symm.trans hclear))
      rw [hclearing] at hj
      cases hj
  have hplace : (((start options : Session κ δ).trace requests).take (n + 1))[m]? =
      some (q, .compiled p log) := by
    rw [List.getElem?_take_of_lt (Nat.lt_succ_of_lt hmn), hq]
  obtain ⟨i, e, hi, hkeye, rfl, he⟩ := haccounts.keeps m q p log hplace hcompiler huncleared
  obtain ⟨i', j', hi', hj', hij⟩ := hlike
  obtain rfl : i = i' := Option.some.inj (hi.symm.trans hi')
  obtain rfl : j = j' := Option.some.inj (hj.symm.trans hj')
  obtain rfl : c.options = o := Option.some.inj (hoptions.symm.trans ho)
  have hkey : e.key = f.key := by
    rw [← hkeye, ← hkeyf]
    exact Compiler.keyOf_eq_of_like hij
  rw [he.eq hf hkey]

/-- **When two calls return one predicate.**  Two calls in a session return the same object if
and only if they are calls of one compiler, which is not cleared in between, and look the same
to it: they are about one record type, through its own schema or else through one supplied
table, and their lists agree under the key mode.  Digests do not collide on the lists of the
session, whose lengths fit, and the allocator keeps its promise, as it does when all tables
stay alive. -/
theorem run_shares_iff (hmn : m < n)
    (hq : ((start options).trace requests)[m]? = some (q, .compiled p log))
    (hr : ((start options).trace requests)[n]? = some (r, .compiled p' log'))
    (ho : options[r.compiler]? = some o)
    (hdigest : Digest.Separates δ o.keyMode (Request.lists requests))
    (hfits : ∀ cs ∈ Request.lists requests, Condition.ListFits cs)
    (hadmits : (start options : Session κ δ).AdmitsAll requests) :
    p.object.serial = p'.object.serial ↔
      q.compiler = r.compiler ∧
        (∀ k, m < k → k < n → requests[k]? ≠ some (.clear r.compiler)) ∧
        q.Like o.keyMode r := by
  constructor
  · intro hserial
    obtain ⟨c, q₀, i₀, i, log₀, hc, hi, hi₀, hkey, hq₀, horigin, hbefore, -⟩ := run_origin hq
    obtain ⟨d, r₀, j₀, j, log₁, hd, hj, hj₀, hkey', hr₀, horigin', -, hkept⟩ := run_origin hr
    rw [hserial] at horigin hbefore
    cases horigin.symm.trans horigin'
    obtain rfl : i₀ = j₀ := Option.some.inj (hi₀.symm.trans hj₀)
    have hcompiler : q.compiler = r.compiler := hq₀.symm.trans hr₀
    rw [hcompiler] at hc
    obtain rfl : c.options = o := Option.some.inj (hc.symm.trans ho)
    obtain hoptions : c.options = d.options := Option.some.inj (hc.symm.trans hd)
    have hkeys : c.keyOf i = c.keyOf j := by
      rw [← hkey, Compiler.keyOf_congr hoptions i₀, hkey', Compiler.keyOf_congr hoptions j]
    obtain ⟨-, hsource, hlists⟩ := CacheKey.mk.inj hkeys
    obtain ⟨f, hf, hpf⟩ := run_schema hq hi (hcompiler ▸ hc) hdigest hfits hadmits
    obtain ⟨g, hg, hpg⟩ := run_schema hr hj hc hdigest hfits hadmits
    have hmem : ∀ {place : Nat} {x : Request κ × Response κ δ},
        ((start options : Session κ δ).trace requests)[place]? = some x → x.1 ∈ requests :=
      fun hx => List.mem_of_getElem? (List.getElem?_zip_eq_some.mp hx).1
    refine ⟨hcompiler, fun k hk hkn => hkept k (Nat.lt_of_le_of_lt hbefore hk) (Nat.le_of_lt hkn),
      i, j, hi, hj, Job.table_eq (hpf.symm.trans hpg) hf hg hsource, ?_⟩
    exact hdigest.agree hfits (Request.mem_lists (hmem hq) hi) (Request.mem_lists (hmem hr) hj)
      hlists
  · rintro ⟨hcompiler, hbetween, hlike⟩
    rw [run_returned_of_like hmn hq hr ho hcompiler hbetween hlike]

theorem exists_compiled {s : Session κ δ} (hq : requests[m]? = some q)
    (hreturned : ((s.run requests).1[m]?.bind Response.returned?).isSome) :
    ∃ p log, (s.trace requests)[m]? = some (q, .compiled p log) := by
  obtain ⟨p, hp⟩ := Option.isSome_iff_exists.mp hreturned
  obtain ⟨a, ha, hap⟩ := Option.bind_eq_some_iff.mp hp
  cases a with
  | compiled p log => exact ⟨p, log, List.getElem?_zip_eq_some.mpr ⟨hq, ha⟩⟩
  | failed => cases hap
  | cleared => cases hap
  | noCompiler => cases hap

end Runs

end Session

namespace Device

/-- A gauge, tested through a table, through another one with the same name and the same
fields, and through the first one again, for a list that is written differently. -/
def twins : List (Request Device) :=
  [.compileWith 0 .gauge ⟨7, Gauge.schema⟩ low, .compileWith 0 .gauge ⟨9, Gauge.schema⟩ low,
    .compileWith 0 .gauge ⟨7, Gauge.schema⟩ (low.map (Condition.withDataType "any"))]

theorem admitsAll_twins :
    (Session.start [{}] : Session Device Blake3.Hash).AdmitsAll twins := by
  refine Session.admitsAll_of_unshared ?_
  intro record h k i j as bs hh hk haddress
  have honly : ∀ {record : Device} {h : Handle (RecordTypes.Record record)} {i : Nat}
      {as : List Condition}, .compileWith i record h as ∈ twins →
        ∃ address, (⟨record, h⟩ : (record : Device) × Handle (RecordTypes.Record record)) =
          ⟨.gauge, address, Gauge.schema⟩ := by
    intro record h i as hmem
    simp only [twins, List.mem_cons, List.not_mem_nil, or_false] at hmem
    rcases hmem with heq | heq | heq <;> (cases heq; exact ⟨_, rfl⟩)
  obtain ⟨a, ha⟩ := honly hh
  obtain ⟨b, hb⟩ := honly hk
  cases ha
  cases hb
  cases haddress
  rfl

theorem separates_twins :
    Digest.Separates Blake3.Hash ({} : Options).keyMode (Request.lists twins) := by
  unfold Digest.Separates
  decide +kernel

/-- Only the calls through one table share a predicate. -/
theorem shares_twins :
    ∃ (p p₁ p₂ : Returned Device) (log log₁ log₂ : List (LogEntry Blake3.Hash)),
      ((Session.start [{}] : Session Device Blake3.Hash).run twins).1[0]? =
          some (.compiled p log) ∧
        ((Session.start [{}] : Session Device Blake3.Hash).run twins).1[1]? =
          some (.compiled p₁ log₁) ∧
        ((Session.start [{}] : Session Device Blake3.Hash).run twins).1[2]? =
          some (.compiled p₂ log₂) ∧
        p.object.serial = p₂.object.serial ∧ p.object.serial ≠ p₁.object.serial := by
  obtain ⟨p, log, hp⟩ := Session.exists_compiled (s := (Session.start [{}] :
    Session Device Blake3.Hash)) (show twins[0]? = some _ from rfl) (by decide +kernel)
  obtain ⟨p₁, log₁, hp₁⟩ := Session.exists_compiled (s := (Session.start [{}] :
    Session Device Blake3.Hash)) (show twins[1]? = some _ from rfl) (by decide +kernel)
  obtain ⟨p₂, log₂, hp₂⟩ := Session.exists_compiled (s := (Session.start [{}] :
    Session Device Blake3.Hash)) (show twins[2]? = some _ from rfl) (by decide +kernel)
  refine ⟨p, p₁, p₂, log, log₁, log₂, (List.getElem?_zip_eq_some.mp hp).2,
    (List.getElem?_zip_eq_some.mp hp₁).2, (List.getElem?_zip_eq_some.mp hp₂).2, ?_, ?_⟩
  · refine (Session.run_shares_iff (by decide) hp hp₂ rfl separates_twins (by decide)
      admitsAll_twins).mpr ⟨rfl, ?_, _, _, rfl, rfl, rfl, rfl⟩
    intro k hk hkn
    obtain rfl : k = 1 := by omega
    nofun
  · rw [ne_eq, Session.run_shares_iff (by decide) hp hp₁ rfl separates_twins (by decide)
      admitsAll_twins]
    rintro ⟨-, -, i, j, hi, hj, hlike⟩
    cases hi
    cases hj
    exact absurd (congrArg (fun table => table.2.1) hlike.1) (by decide)

end Device

end FieldRules
