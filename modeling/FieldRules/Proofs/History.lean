import FieldRules.Proofs.Transparency
import Mathlib.Data.List.Induction

/-!
# What a compiler remembers of its calls

Whatever the key mode, the cache of a compiler holds under each key what the first of the
jobs since the last clearing came to that had this key and compiled.  So the answer to a
call can be read off the history of calls, without looking at the cache.

Jobs look the same to a compiler if they are about one record type and one field table,
and their lists agree under the key mode.  Keys tell this, if digests do not collide and
addresses are not shared; a job that fails leaves nothing behind, so that it never stands
in the way of a later one that looks the same.

**Results.**
* `Compiler.Serves.remembers`: calls add their jobs to what is remembered.
* `Session.Steps.settled`: a call gives what its history says.
* `Session.run_structural`: so does every call of a compiler that goes by structure.
-/

namespace FieldRules

section Histories

variable {κ : Type} [RecordTypes κ]

/-- The jobs that requests have given to a compiler since it was last cleared. -/
def Request.sinceClear (index : Nat) (rs : List (Request κ)) : List (Job κ) :=
  rs.foldl (fun asked r =>
    if r.compiler = index then
      match r.job? with
      | some j => asked ++ [j]
      | none => []
    else asked) []

section SinceClear

variable {index : Nat} {rs : List (Request κ)} {r : Request κ} {j : Job κ}

theorem Request.sinceClear_of_ne (h : r.compiler ≠ index) :
    sinceClear index (rs ++ [r]) = sinceClear index rs := by
  simp [sinceClear, h]

theorem Request.sinceClear_of_job? (hj : r.job? = some j) :
    sinceClear r.compiler (rs ++ [r]) = sinceClear r.compiler rs ++ [j] := by
  simp [sinceClear, hj]

theorem Request.sinceClear_of_clear (hr : r.job? = none) :
    sinceClear r.compiler (rs ++ [r]) = [] := by
  simp [sinceClear, hr]

theorem Request.mem_of_mem_sinceClear (h : j ∈ sinceClear index rs) :
    ∃ r ∈ rs, r.job? = some j := by
  induction rs using List.reverseRecOn with
  | nil => simp [sinceClear] at h
  | append_singleton rs r ih =>
      by_cases hindex : r.compiler = index
      · subst hindex
        cases hr : r.job? with
        | none => simp [sinceClear_of_clear hr] at h
        | some k =>
            rw [sinceClear_of_job? hr, List.mem_append, List.mem_singleton] at h
            rcases h with h | rfl
            · obtain ⟨q, hq, hjob⟩ := ih h
              exact ⟨q, by simp [hq], hjob⟩
            · exact ⟨r, by simp, hr⟩
      · rw [sinceClear_of_ne hindex] at h
        obtain ⟨q, hq, hjob⟩ := ih h
        exact ⟨q, by simp [hq], hjob⟩

end SinceClear

/-- The record type of a job, and the field table that it is compiled against with its
key. -/
def Job.table (j : Job κ) : (record : κ) × SchemaKey × Schema (RecordTypes.Record record) :=
  ⟨j.record, j.source, j.schema⟩

/-- Two jobs look the same under a key mode: they are about one record type and one field
table, and their lists agree. -/
def Job.Like (mode : KeyMode) (k j : Job κ) : Prop :=
  k.table = j.table ∧ mode.Agree k.conditions j.conditions

theorem Job.like_refl (mode : KeyMode) (j : Job κ) : j.Like mode j := by
  refine ⟨rfl, ?_⟩
  cases mode <;> rfl

theorem Job.table_eq {k j : Job κ} {p : Predicate (RecordTypes.Record k.record)}
    {q : Predicate (RecordTypes.Record j.record)}
    (h : (⟨k.record, p⟩ : (record : κ) × Predicate (RecordTypes.Record record)) = ⟨j.record, q⟩)
    (hp : p.schema = k.schema) (hq : q.schema = j.schema) (hsource : k.source = j.source) :
    k.table = j.table := by
  obtain ⟨record, schema, source, own, conditions⟩ := k
  cases h
  dsimp only at hp hsource
  subst hsource
  have hschema : schema = j.schema := hp.symm.trans hq
  unfold table
  exact congrArg (fun u => (⟨j.record, j.source, u⟩ : (record : κ) × SchemaKey ×
    Schema (RecordTypes.Record record))) hschema

/-- A job that does not compile. -/
def Job.Refused (formats : List String) (j : Job κ) : Prop :=
  ∃ e, j.afresh formats = .error e

/-- What a job comes to after some jobs, itself the last of them: the predicate of the
earliest that looks the same and compiles, or its own error if there is none. -/
inductive Job.Settled (formats : List String) (mode : KeyMode) (asked : List (Job κ))
    (j : Job κ) : Verdict κ → Prop
  | earliest {before after : List (Job κ)} {k : Job κ}
      {p : Predicate (RecordTypes.Record k.record)} (split : asked = before ++ k :: after)
      (like : k.Like mode j) (compiled : k.afresh formats = .ok p)
      (first : ∀ l ∈ before, l.Like mode j → l.Refused formats) :
      Settled formats mode asked j (.ok ⟨k.record, p⟩)
  | refused {e : CompileError} (never : ∀ k ∈ asked, k.Like mode j → k.Refused formats)
      (own : j.afresh formats = .error e) :
      Settled formats mode asked j (.error e)

theorem Job.not_refused {formats : List String} {j : Job κ}
    {p : Predicate (RecordTypes.Record j.record)} (h : j.afresh formats = .ok p) :
    ¬ j.Refused formats := by
  rintro ⟨e, he⟩
  rw [h] at he
  cases he

/-- The first element of a list with a property is only one. -/
theorem eq_of_first {α : Type} {P : α → Prop} {as bs cs ds : List α} {a b : α}
    (h : as ++ a :: bs = cs ++ b :: ds) (ha : P a) (hb : P b) (has : ∀ x ∈ as, ¬ P x)
    (hcs : ∀ x ∈ cs, ¬ P x) : a = b := by
  rcases List.append_eq_append_iff.mp h with ⟨es, rfl, htail⟩ | ⟨es, rfl, htail⟩
  · cases es with
    | nil => exact (List.cons.inj htail).1
    | cons e es =>
        obtain ⟨rfl, -⟩ := List.cons.inj htail
        exact absurd ha (hcs a (by simp))
  · cases es with
    | nil => exact (List.cons.inj htail).1.symm
    | cons e es =>
        obtain ⟨rfl, -⟩ := List.cons.inj htail
        exact absurd hb (has b (by simp))

/-- What a job comes to is determined by the jobs before it. -/
theorem Job.Settled.unique {formats : List String} {mode : KeyMode} {asked : List (Job κ)}
    {j : Job κ} {v w : Verdict κ} (hv : j.Settled formats mode asked v)
    (hw : j.Settled formats mode asked w) : v = w := by
  cases hv with
  | @earliest before after k p split like compiled first =>
      cases hw with
      | @earliest before' after' l q split' like' compiled' first' =>
          have hkl : k = l := by
            refine eq_of_first (P := fun m => m.Like mode j ∧ ¬ m.Refused formats)
              (split.symm.trans split') ⟨like, not_refused compiled⟩
              ⟨like', not_refused compiled'⟩ ?_ ?_
            · exact fun m hm hboth => hboth.2 (first m hm hboth.1)
            · exact fun m hm hboth => hboth.2 (first' m hm hboth.1)
          subst hkl
          rw [compiled] at compiled'
          cases compiled'
          rfl
      | refused never =>
          exact absurd (never k (by simp [split]) like) (not_refused compiled)
  | @refused e never own =>
      cases hw with
      | @earliest before after k p split like compiled =>
          exact absurd (never k (by simp [split]) like) (not_refused compiled)
      | @refused e' _ own' =>
          rw [own] at own'
          cases own'
          rfl

/-- What a job is compiled to, if it compiles. -/
def Job.made? (formats : List String) (j : Job κ) :
    Option ((record : κ) × Predicate (RecordTypes.Record record)) :=
  (j.verdict formats).toOption

theorem Job.made?_eq_some_iff {formats : List String} {j : Job κ}
    {x : (record : κ) × Predicate (RecordTypes.Record record)} :
    j.made? formats = some x ↔ ∃ p, j.afresh formats = .ok p ∧ x = ⟨j.record, p⟩ := by
  unfold made? verdict
  cases j.afresh formats with
  | error e => simp [Except.map, Except.toOption]
  | ok p => simp [Except.map, Except.toOption, eq_comm]

theorem Job.made?_eq_none_iff {formats : List String} {j : Job κ} :
    j.made? formats = none ↔ j.Refused formats := by
  unfold made? verdict Refused
  cases j.afresh formats <;> simp [Except.map, Except.toOption]

end Histories

variable {κ δ : Type} [RecordTypes κ] [DecidableEq κ] [DecidableEq δ]

theorem Cache.map_find?_newest {e : CacheEntry κ δ} {key : CacheKey κ δ} (h : e.key = key)
    (es : List (CacheEntry κ δ)) :
    (find? key (e :: es)).map (fun object => (⟨key.record, object.predicate⟩ :
        (record : κ) × Predicate (RecordTypes.Record record))) =
      some ⟨e.key.record, e.object.predicate⟩ := by
  subst h
  rw [find?_insert_self, Option.map_some]

namespace Compiler

variable [Digest δ] {c : Compiler κ δ} {serial : Nat} {i j : Job κ} {call : Call κ δ j.record}
  {asked : List (Job κ)}

/-- The predicate that a compiler has kept under the key of a job. -/
def kept? (c : Compiler κ δ) (j : Job κ) :
    Option ((record : κ) × Predicate (RecordTypes.Record record)) :=
  (Cache.find? (c.keyOf j) c.cache.entries).map fun object => ⟨j.record, object.predicate⟩

/-- A compiler has kept for any job what the first of some jobs with its key came to. -/
def Remembers (asked : List (Job κ)) (c : Compiler κ δ) : Prop :=
  ∀ j : Job κ, c.kept? j =
    asked.findSome? fun k => if c.keyOf k = c.keyOf j then k.made? c.options.dateFormats else none

theorem kept?_eq_some {object : Shared (RecordTypes.Record j.record)}
    (h : Cache.find? (c.keyOf j) c.cache.entries = some object) :
    c.kept? j = some ⟨j.record, object.predicate⟩ :=
  congrArg (Option.map fun object : Shared (RecordTypes.Record j.record) =>
    (⟨j.record, object.predicate⟩ : (record : κ) × Predicate (RecordTypes.Record record))) h

theorem kept?_eq_none (h : Cache.find? (c.keyOf j) c.cache.entries = none) :
    c.kept? j = none := by
  rw [kept?, h, Option.map_none]

/-- A predicate that is found was made for the first job with its key that compiled. -/
theorem Remembers.found (hc : c.Remembers asked)
    {object : Shared (RecordTypes.Record j.record)}
    (h : Cache.find? (c.keyOf j) c.cache.entries = some object) :
    ∃ before k after p, asked = before ++ k :: after ∧ c.keyOf k = c.keyOf j ∧
      k.afresh c.options.dateFormats = .ok p ∧
      (⟨k.record, p⟩ : (record : κ) × Predicate (RecordTypes.Record record)) =
        ⟨j.record, object.predicate⟩ ∧
      ∀ l ∈ before, c.keyOf l = c.keyOf j → l.Refused c.options.dateFormats := by
  have hj := hc j
  rw [kept?_eq_some h, eq_comm, List.findSome?_eq_some_iff] at hj
  obtain ⟨before, k, after, hsplit, hmade, hbefore⟩ := hj
  by_cases hkey : c.keyOf k = c.keyOf j
  · rw [if_pos hkey] at hmade
    obtain ⟨p, hp, heq⟩ := Job.made?_eq_some_iff.mp hmade
    refine ⟨before, k, after, p, hsplit, hkey, hp, heq.symm, fun l hl hlkey => ?_⟩
    have hnone := hbefore l hl
    rw [if_pos hlkey] at hnone
    exact Job.made?_eq_none_iff.mp hnone
  · rw [if_neg hkey] at hmade
    cases hmade

/-- If nothing is found, then no job with the key has compiled. -/
theorem Remembers.missing (hc : c.Remembers asked)
    (h : Cache.find? (c.keyOf j) c.cache.entries = none) :
    ∀ l ∈ asked, c.keyOf l = c.keyOf j → l.Refused c.options.dateFormats := by
  have hj := hc j
  rw [kept?_eq_none h, eq_comm, List.findSome?_eq_none_iff] at hj
  intro l hl hkey
  have hnone := hj l hl
  rw [if_pos hkey] at hnone
  exact Job.made?_eq_none_iff.mp hnone

theorem remembers_nil (h : c.cache.entries = []) : c.Remembers [] := by
  intro j
  rw [kept?, h]
  rfl

/-- The newest entry answers for its own key, and only for this. -/
theorem kept?_newest {object : Shared (RecordTypes.Record j.record)} {hits misses : UInt64} :
    kept? ⟨c.options, ⟨⟨c.keyOf j, object⟩ :: c.cache.entries, hits, misses⟩⟩ i =
      if c.keyOf j = c.keyOf i then some ⟨j.record, object.predicate⟩ else c.kept? i := by
  by_cases hkey : c.keyOf j = c.keyOf i
  · rw [if_pos hkey]
    exact Cache.map_find?_newest hkey c.cache.entries
  · rw [if_neg hkey]
    exact congrArg _ (Cache.find?_insert_of_ne hkey c.cache.entries)

/-- A call adds its job to what is remembered. -/
theorem Serves.remembers (h : c.Serves serial j call) (hc : c.Remembers asked) :
    call.compiler.Remembers (asked ++ [j]) := by
  intro i
  have hlast : (asked ++ [j]).findSome? (fun k =>
        if c.keyOf k = c.keyOf i then k.made? c.options.dateFormats else none) =
      (c.kept? i).or (if c.keyOf j = c.keyOf i then j.made? c.options.dateFormats else none) := by
    rw [List.findSome?_append, hc i]
    simp
  cases h with
  | @found p stored =>
      have hkept : (c.kept? i).or
          (if c.keyOf j = c.keyOf i then j.made? c.options.dateFormats else none) =
            c.kept? i := by
        by_cases hkey : c.keyOf j = c.keyOf i
        · have hfound : ∃ q, Cache.find? (c.keyOf j) c.cache.entries = some q := ⟨p, stored⟩
          rw [hkey] at hfound
          obtain ⟨q, hq⟩ := hfound
          rw [kept?, hq, Option.map_some, Option.some_or]
        · rw [if_neg hkey, Option.or_none]
      exact hkept.symm.trans hlast.symm
  | @made p missing compiled =>
      refine Eq.trans kept?_newest ?_
      refine Eq.trans ?_ hlast.symm
      by_cases hkey : c.keyOf j = c.keyOf i
      · have hmade : j.made? c.options.dateFormats = some ⟨j.record, p⟩ :=
          Job.made?_eq_some_iff.mpr ⟨p, compiled, rfl⟩
        have hmissing : Cache.find? (c.keyOf i) c.cache.entries = none := hkey ▸ missing
        rw [if_pos hkey, if_pos hkey, kept?_eq_none hmissing, Option.none_or, hmade]
      · rw [if_neg hkey, if_neg hkey, Option.or_none]
  | @failed e missing refused =>
      have hmade : j.made? c.options.dateFormats = none :=
        Job.made?_eq_none_iff.mpr ⟨e, refused⟩
      refine Eq.trans ?_ hlast.symm
      rw [hmade, ite_self, Option.or_none]
      rfl

omit [DecidableEq κ] [DecidableEq δ] in
theorem keyOf_eq_of_like {k : Job κ} (h : k.Like c.options.keyMode j) : c.keyOf k = c.keyOf j := by
  obtain ⟨htable, hagree⟩ := h
  have hdigest : Condition.digest δ c.options.keyMode k.conditions =
      Condition.digest δ c.options.keyMode j.conditions :=
    Condition.digest_eq_of_encoding (Encoding.ofList_eq_of_agree hagree)
  obtain ⟨record, schema, source, own, conditions⟩ := k
  cases htable
  unfold keyOf key
  rw [hdigest]

end Compiler

namespace Session

variable [Digest δ] {s : Session κ δ} {r : Request κ} {x : Response κ δ × Session κ δ}
  {done rs : List (Request κ)}

/-- Every compiler of a session remembers its jobs. -/
def Remembers (done : List (Request κ)) (s : Session κ δ) : Prop :=
  ∀ (index : Nat) (c : Compiler κ δ), s.compilers[index]? = some c →
    c.Remembers (Request.sinceClear index done)

/-- A step adds its job to what is remembered, or takes all away. -/
theorem Steps.remembers (h : s.Steps r x) (hs : s.Remembers done) :
    x.2.Remembers (done ++ [r]) := by
  intro index d hd
  by_cases hindex : r.compiler = index
  · subst hindex
    cases h with
    | idle absent =>
        rw [pass, absent] at hd
        cases hd
    | @cleared c present clearing =>
        rw [record, List.getElem?_set_self (List.getElem?_eq_some_iff.mp present).1] at hd
        cases hd
        rw [Request.sinceClear_of_clear clearing]
        exact Compiler.remembers_nil rfl
    | @served c j call present asked serves =>
        rw [record, List.getElem?_set_self (List.getElem?_eq_some_iff.mp present).1] at hd
        cases hd
        rw [Request.sinceClear_of_job? asked]
        exact serves.remembers (hs r.compiler c present)
  · rw [Request.sinceClear_of_ne hindex]
    refine hs index d ?_
    cases h with
    | idle => exact hd
    | cleared => rwa [record, List.getElem?_set_ne hindex] at hd
    | served => rwa [record, List.getElem?_set_ne hindex] at hd

theorem remembers_start (options : List Options) : (start options : Session κ δ).Remembers [] := by
  intro index c hc
  obtain ⟨o, -, rfl⟩ := List.mem_map.mp (List.mem_of_getElem? hc)
  exact Compiler.remembers_nil rfl

section Runs

theorem getElem?_run (s : Session κ δ) (before : List (Request κ)) (r : Request κ)
    (after : List (Request κ)) :
    (s.run (before ++ r :: after)).1[before.length]? = some ((s.run before).2.perform r).1 := by
  induction before generalizing s with
  | nil => rfl
  | cons q before ih =>
      rw [List.cons_append, run, List.length_cons, List.getElem?_cons_succ, ih, run]

theorem admits_of_admitsAll {before after : List (Request κ)}
    (h : s.AdmitsAll (before ++ r :: after)) : (s.run before).2.Admits r := by
  induction before generalizing s with
  | nil => exact h.1
  | cons q before ih => exact ih h.2

end Runs

section Answers

variable {options : List Options} {lists : List (List Condition)} {o : Options} {j : Job κ}

/-- A session has followed some requests: its caches are sound, and every compiler remembers
its jobs. -/
structure Follows (options : List Options) (lists : List (List Condition))
    (done : List (Request κ)) (s : Session κ δ) : Prop where
  sound : s.Sound options lists
  remembers : s.Remembers done

theorem follows_start (options : List Options) (lists : List (List Condition)) :
    (start options : Session κ δ).Follows options lists [] :=
  ⟨sound_start options, remembers_start options⟩

theorem Steps.follows (h : s.Steps r x) (hs : s.Follows options lists done)
    (hlists : ∀ j, r.job? = some j → j.conditions ∈ lists) :
    x.2.Follows options lists (done ++ [r]) :=
  ⟨h.sound hs.sound hlists, h.remembers hs.remembers⟩

theorem run_follows (hs : s.Follows options lists done)
    (hlists : ∀ r ∈ rs, ∀ j, r.job? = some j → j.conditions ∈ lists) :
    (s.run rs).2.Follows options lists (done ++ rs) := by
  induction rs generalizing done s with
  | nil =>
      rw [List.append_nil]
      exact hs
  | cons r rs ih =>
      rw [run, List.append_cons]
      have hstep := (s.perform_steps r).follows hs (hlists r List.mem_cons_self)
      exact ih hstep fun q hq => hlists q (List.mem_cons_of_mem r hq)

/-- A predicate that a job finds was made for the earliest job that looks the same.  The list
of that job is known by its digest and a supplied table by the allocator's promise, since the
entry holds neither of them. -/
theorem Follows.settled_of_found {c : Compiler κ δ}
    {object : Shared (RecordTypes.Record j.record)} (hs : s.Follows options lists done)
    (hadmits : s.Admits r) (hj : r.job? = some j)
    (present : s.compilers[r.compiler]? = some c)
    (hdigest : Digest.Separates δ c.options.keyMode lists)
    (hfits : ∀ cs ∈ lists, Condition.ListFits cs)
    (hasked : ∀ k ∈ Request.sinceClear r.compiler done ++ [j], k.conditions ∈ lists)
    (stored : Cache.find? (c.keyOf j) c.cache.entries = some object) :
    j.Settled c.options.dateFormats c.options.keyMode
      (Request.sinceClear r.compiler done ++ [j]) (.ok ⟨j.record, object.predicate⟩) := by
  obtain ⟨before, k, after, p, hsplit, hkey, hp, hobject, hbefore⟩ :=
    (hs.remembers r.compiler c present).found stored
  obtain ⟨-, hsource, hsame⟩ := CacheKey.mk.inj hkey
  have hk : k ∈ Request.sinceClear r.compiler done ++ [j] := by simp [hsplit]
  have hschema := hs.sound.schema_eq hadmits (List.mem_of_getElem? present) hj
    (Cache.mem_of_find? stored)
  have hlike : k.Like c.options.keyMode j :=
    ⟨Job.table_eq hobject (Predicate.schema_of_compile hp) hschema hsource,
      hdigest.agree hfits (hasked k hk) (hasked j (by simp)) hsame⟩
  rw [← hobject]
  refine .earliest (by rw [hsplit, List.append_assoc]; rfl) hlike hp fun l hl hl' => ?_
  exact hbefore l hl (Compiler.keyOf_eq_of_like hl')

/-- A step with a job gives what the jobs since the last clearing settle. -/
theorem Steps.settled (h : s.Steps r x) (hs : s.Follows options lists done)
    (hadmits : s.Admits r) (hj : r.job? = some j) (ho : options[r.compiler]? = some o)
    (hdigest : Digest.Separates δ o.keyMode lists)
    (hfits : ∀ cs ∈ lists, Condition.ListFits cs)
    (hasked : ∀ k ∈ Request.sinceClear r.compiler done ++ [j], k.conditions ∈ lists) :
    ∃ v, x.1.verdict? = some v ∧
      j.Settled o.dateFormats o.keyMode (Request.sinceClear r.compiler done ++ [j]) v := by
  cases h with
  | idle absent =>
      rw [← hs.sound.options, List.getElem?_map, absent] at ho
      cases ho
  | cleared _ clearing =>
      rw [hj] at clearing
      cases clearing
  | @served c i call present asked serves =>
      obtain rfl : j = i := Option.some.inj (hj.symm.trans asked)
      have hoptions : c.options = o := by
        rw [← hs.sound.options, List.getElem?_map, present, Option.map_some] at ho
        exact Option.some.inj ho
      subst hoptions
      have hremembers := hs.remembers r.compiler c present
      refine ⟨call.verdict, Response.verdict?_ofCall call, ?_⟩
      cases serves with
      | found stored =>
          exact hs.settled_of_found hadmits hj present hdigest hfits hasked stored
      | made missing compiled =>
          refine .earliest rfl (Job.like_refl _ j) compiled fun l hl hlike => ?_
          exact hremembers.missing missing l hl (Compiler.keyOf_eq_of_like hlike)
      | @failed e missing refused =>
          refine .refused (fun l hl hlike => ?_) refused
          rcases List.mem_append.mp hl with hl | hl
          · exact hremembers.missing missing l hl (Compiler.keyOf_eq_of_like hlike)
          · exact ⟨e, List.mem_singleton.mp hl ▸ refused⟩

/-- Every call of a session gives what the jobs of its compiler since the last clearing
settle. -/
theorem run_settled {before after : List (Request κ)} (hj : r.job? = some j)
    (ho : options[r.compiler]? = some o)
    (hdigest : Digest.Separates δ o.keyMode (Request.lists (before ++ r :: after)))
    (hfits : ∀ cs ∈ Request.lists (before ++ r :: after), Condition.ListFits cs)
    (hadmits : (start options : Session κ δ).AdmitsAll (before ++ r :: after)) :
    ∃ answer v,
      ((start options : Session κ δ).run (before ++ r :: after)).1[before.length]? = some answer ∧
        answer.verdict? = some v ∧
        j.Settled o.dateFormats o.keyMode (Request.sinceClear r.compiler before ++ [j]) v := by
  have hmem : ∀ q ∈ before ++ [r], q ∈ before ++ r :: after := by
    intro q hq
    rw [List.append_cons]
    exact List.mem_append_left after hq
  have hstart : (start options : Session κ δ).Follows options
      (Request.lists (before ++ r :: after)) [] := follows_start options _
  have hfollows := run_follows hstart fun q hq k hk =>
    Request.mem_lists (hmem q (List.mem_append_left [r] hq)) hk
  have hstep := ((start options : Session κ δ).run before).2.perform_steps r
  obtain ⟨v, hv, hsettled⟩ := hstep.settled hfollows (admits_of_admitsAll hadmits) hj ho hdigest
    hfits fun k hk => by
      rw [List.nil_append, ← Request.sinceClear_of_job? hj] at hk
      obtain ⟨q, hq, hjob⟩ := Request.mem_of_mem_sinceClear hk
      exact Request.mem_lists (hmem q hq) hjob
  exact ⟨_, v, getElem?_run _ before r after, hv, hsettled⟩

/-- **What a compiler that goes by structure returns.**  A call of such a compiler, among
calls of any compilers, comes to the predicate of the earliest list that compiles, of those
passed since the last clearing, its own included, for its record type and its field table
with its sequence of top-level properties, operators and numbers; if there is none, it comes
to its own error.  Digests do not collide on the lists of the session, whose lengths fit,
and the allocator keeps its promise. -/
theorem run_structural {before after : List (Request κ)} (hj : r.job? = some j)
    (ho : options[r.compiler]? = some o) (hmode : o.keyMode = .structural)
    (hdigest : Digest.Separates δ .structural (Request.lists (before ++ r :: after)))
    (hfits : ∀ cs ∈ Request.lists (before ++ r :: after), Condition.ListFits cs)
    (hadmits : (start options : Session κ δ).AdmitsAll (before ++ r :: after)) :
    ∃ answer v,
      ((start options : Session κ δ).run (before ++ r :: after)).1[before.length]? = some answer ∧
        answer.verdict? = some v ∧
        j.Settled o.dateFormats .structural (Request.sinceClear r.compiler before ++ [j]) v := by
  rw [← hmode] at hdigest ⊢
  exact run_settled hj ho hdigest hfits hadmits

end Answers

end Session

namespace Device

/-- A level compared with what is no number, in a list that looks like `low` by structure. -/
def lots : List Condition := [(Condition.on "level" .lessThan).withValue "lots"]

def gaugeJob (conditions : List Condition) : Job Device :=
  ⟨.gauge, Gauge.schema, .supplied "Gauge" 7, nofun, conditions⟩

/-- Calls in front of one for `lots`: the list has failed before, and then `low` has
compiled. -/
def levels : List (Request Device) :=
  [.compileWith 0 .gauge ⟨7, Gauge.schema⟩ lots, .compileWith 0 .gauge ⟨7, Gauge.schema⟩ low]

def lotsCall : Request Device := .compileWith 0 .gauge ⟨7, Gauge.schema⟩ lots

theorem admitsAll_levels : (Session.start [{ keyMode := .structural }] :
    Session Device Blake3.Hash).AdmitsAll (levels ++ lotsCall :: []) := by
  refine Session.admitsAll_of_unshared ?_
  intro record h k i j as bs hh hk _
  have honly : ∀ {record : Device} {h : Handle (RecordTypes.Record record)} {i : Nat}
      {as : List Condition}, .compileWith i record h as ∈ levels ++ lotsCall :: [] →
        (⟨record, h⟩ : (record : Device) × Handle (RecordTypes.Record record)) =
          ⟨.gauge, 7, Gauge.schema⟩ := by
    intro record h i as hmem
    simp only [levels, lotsCall, List.cons_append, List.nil_append, List.mem_cons,
      List.not_mem_nil, or_false] at hmem
    rcases hmem with heq | heq | heq <;> (cases heq; rfl)
  have hsame := (honly hh).trans (honly hk).symm
  cases hsame
  rfl

/-- By structure, a list that does not compile is answered with the predicate of an earlier
one that did. -/
theorem run_levels :
    ((Session.start [{ keyMode := .structural }] : Session Device Blake3.Hash).run
        (levels ++ lotsCall :: [])).1[2]?.bind Response.verdict? =
      some (.ok ⟨.gauge, Gauge.schema, lowTest⟩) := by
  obtain ⟨answer, v, hanswer, hv, hsettled⟩ := Session.run_structural
    (o := { keyMode := .structural }) (by rfl) (by rfl) rfl
    (by unfold Digest.Separates; decide +kernel) (by decide) admitsAll_levels
  have hsplit : Request.sinceClear 0 levels ++ [gaugeJob lots] =
      [gaugeJob lots] ++ gaugeJob low :: [gaugeJob lots] := rfl
  have hlow : (gaugeJob lots).Settled ({} : Options).dateFormats .structural
      (Request.sinceClear 0 levels ++ [gaugeJob lots]) (.ok ⟨.gauge, Gauge.schema, lowTest⟩) := by
    refine .earliest hsplit ⟨rfl, rfl⟩ rfl fun l hl _ => ?_
    obtain rfl := List.mem_singleton.mp hl
    exact ⟨_, rfl⟩
  rw [show 2 = levels.length from rfl, hanswer, Option.bind_some, hv]
  exact congrArg some (hsettled.unique hlow)

end Device

end FieldRules
