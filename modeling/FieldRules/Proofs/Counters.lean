import FieldRules.Proofs.Traces
import FieldRules.Proofs.Lifetimes

/-!
# The counters of a compiler

A compiler counts the calls that find a predicate and those that do not.  Every call that
misses either fails or adds one entry, and every entry is a predicate that a call has returned
since the compiler was last cleared.  So the counters can be read off the answers that the
compiler has given since then: hits are the answers that return a predicate again, and misses
are as many as the entries and the failures together.

The counters are words of eight bytes.  The balance holds of these words at any time, and of
the numbers as long as they fit.

**Results.**
* `Compiler.Tallies.serve`: a call keeps the balance.
* `Session.tallies_run`: so does a session, for every one of its compilers.
* `Session.run_counters`: what the counters are, whatever other compilers are asked.
-/

namespace FieldRules

namespace Response

variable {κ δ : Type} [RecordTypes κ]

/-- The number of the predicate in an answer. -/
def serial? (a : Response κ δ) : Option Nat := a.returned?.map fun p => p.object.serial

def isFailed : Response κ δ → Bool
  | .failed _ _ => true
  | .compiled _ _ | .cleared | .noCompiler => false

/-- The number of errors among answers. -/
def failures (answers : List (Response κ δ)) : Nat := answers.countP isFailed

/-- The numbers of the predicates in answers. -/
def serials (answers : List (Response κ δ)) : List Nat := answers.filterMap serial?

/-- Whether an answer returns an object that one of some earlier answers has returned. -/
def returnsAgain (earlier : List (Response κ δ)) (a : Response κ δ) : Bool :=
  a.serial?.any fun n => n ∈ serials earlier

/-- The number of answers that return an object which an answer before them has returned. -/
def repeats (answers : List (Response κ δ)) : Nat :=
  answers.zipIdx.countP fun x => x.1.returnsAgain (answers.take x.2)

theorem failures_concat (answers : List (Response κ δ)) (a : Response κ δ) :
    failures (answers ++ [a]) = failures answers + if a.isFailed then 1 else 0 := by
  simp [failures, List.countP_append, List.countP_singleton]

theorem serials_concat (answers : List (Response κ δ)) (a : Response κ δ) :
    serials (answers ++ [a]) = serials answers ++ a.serial?.toList := by
  unfold serials
  rw [List.filterMap_append]
  cases h : a.serial? <;> simp [h]

theorem repeats_concat (answers : List (Response κ δ)) (a : Response κ δ) :
    repeats (answers ++ [a]) =
      repeats answers + if a.returnsAgain answers then 1 else 0 := by
  have hbefore : answers.zipIdx.countP (fun x => x.1.returnsAgain ((answers ++ [a]).take x.2)) =
      repeats answers := by
    refine List.countP_congr fun x hx => ?_
    have hlt : x.2 ≤ answers.length := Nat.le_of_lt (List.snd_lt_of_mem_zipIdx hx)
    rw [List.take_append_of_le_length hlt]
  unfold repeats at hbefore ⊢
  rw [List.zipIdx_append, List.countP_append, hbefore]
  simp [List.zipIdx_cons]

section Concat

variable {answers : List (Response κ δ)} {a : Response κ δ} {n : Nat}

/-- An answer that returns a predicate is no error. -/
theorem failures_concat_of_serial? (answers : List (Response κ δ)) (h : a.serial? = some n) :
    failures (answers ++ [a]) = failures answers := by
  have hpassed : a.isFailed = false := by
    cases a with
    | failed e log => cases h
    | _ => rfl
  rw [failures_concat, hpassed]
  rfl

theorem repeats_concat_of_mem (h : a.serial? = some n) (hn : n ∈ serials answers) :
    repeats (answers ++ [a]) = repeats answers + 1 := by
  rw [repeats_concat, returnsAgain, h, Option.any_some, if_pos (decide_eq_true hn)]

theorem repeats_concat_of_notMem (h : ∀ n ∈ a.serial?, n ∉ serials answers) :
    repeats (answers ++ [a]) = repeats answers := by
  have hnew : a.returnsAgain answers = false := by
    rw [returnsAgain, Option.any_eq_false]
    exact fun n hn => decide_eq_false (h n hn)
  rw [repeats_concat, hnew]
  rfl

end Concat

end Response

variable {κ δ : Type} [RecordTypes κ]

/-- The counters of a compiler agree with its answers, all of them given before some step:
what is kept has been returned, and hits, entries and failures make up all answers. -/
structure Compiler.Tallies (now : Nat) (answers : List (Response κ δ)) (c : Compiler κ δ) :
    Prop where
  hits : c.cache.hits = UInt64.ofNat (Response.repeats answers)
  misses : c.cache.misses = UInt64.ofNat (c.cache.size + Response.failures answers)
  calls : Response.repeats answers + (c.cache.size + Response.failures answers) =
    answers.length
  kept : ∀ e ∈ c.cache.entries, e.object.serial ∈ Response.serials answers
  earlier : ∀ n ∈ Response.serials answers, n < now

namespace Compiler

variable {c : Compiler κ δ} {answers : List (Response κ δ)} {now later : Nat}

theorem tallies_nil (h : c.cache = .empty) : c.Tallies now [] := by
  refine ⟨?_, ?_, ?_, ?_, nofun⟩
  · rw [h]
    rfl
  · rw [h]
    rfl
  · rw [h]
    rfl
  · rw [h]
    nofun

theorem Tallies.mono (hc : c.Tallies now answers) (h : now ≤ later) : c.Tallies later answers :=
  ⟨hc.hits, hc.misses, hc.calls, hc.kept, fun n hn => Nat.lt_of_lt_of_le (hc.earlier n hn) h⟩

namespace Tallies

variable {a : Response κ δ} {n : Nat}

/-- What is kept has been returned by the answers, whatever is answered after them. -/
theorem kept_concat (hc : c.Tallies now answers) (a : Response κ δ) :
    ∀ e ∈ c.cache.entries, e.object.serial ∈ Response.serials (answers ++ [a]) := by
  intro e he
  rw [Response.serials_concat]
  exact List.mem_append_left _ (hc.kept e he)

theorem earlier_concat (hc : c.Tallies now answers) (ha : ∀ n ∈ a.serial?, n ≤ now) :
    ∀ n ∈ Response.serials (answers ++ [a]), n < now + 1 := by
  intro n hn
  rw [Response.serials_concat, List.mem_append, Option.mem_toList] at hn
  rcases hn with hn | hn
  · exact Nat.lt_succ_of_lt (hc.earlier n hn)
  · exact Nat.lt_succ_of_le (ha n hn)

/-- A call that finds a predicate counts a hit, and its answer returns the predicate
again. -/
theorem found (hc : c.Tallies now answers) (ha : a.serial? = some n)
    (hn : n ∈ Response.serials answers) :
    Compiler.Tallies (now + 1) (answers ++ [a])
      { c with cache := { c.cache with hits := c.cache.hits + 1 } } := by
  have hfailures := Response.failures_concat_of_serial? answers ha
  have hrepeats := Response.repeats_concat_of_mem ha hn
  refine ⟨?_, ?_, ?_, hc.kept_concat a, hc.earlier_concat ?_⟩
  · simp [hrepeats, hc.hits]
  · rw [hfailures]
    exact hc.misses
  · rw [hrepeats, hfailures, List.length_append, List.length_singleton, ← hc.calls]
    exact Nat.add_right_comm _ 1 _
  · rw [ha]
    rintro _ ⟨⟩
    exact Nat.le_of_lt (hc.earlier n hn)

/-- A call that compiles counts a miss and adds an entry, which no answer before has
returned. -/
theorem made (hc : c.Tallies now answers) (ha : a.serial? = some now) {e : CacheEntry κ δ}
    (he : e.object.serial = now) :
    Compiler.Tallies (now + 1) (answers ++ [a])
      { c with
        cache :=
          { c.cache with entries := e :: c.cache.entries, misses := c.cache.misses + 1 } } := by
  have hfailures := Response.failures_concat_of_serial? answers ha
  have hrepeats : Response.repeats (answers ++ [a]) = Response.repeats answers := by
    refine Response.repeats_concat_of_notMem ?_
    rw [ha]
    rintro _ ⟨⟩ hold
    exact Nat.lt_irrefl now (hc.earlier now hold)
  refine ⟨?_, ?_, ?_, ?_, hc.earlier_concat ?_⟩
  · rw [hrepeats]
    exact hc.hits
  · rw [hfailures, hc.misses, ← UInt64.ofNat_one, ← UInt64.ofNat_add]
    exact congrArg UInt64.ofNat (Nat.add_right_comm _ _ 1)
  · rw [hrepeats, hfailures, List.length_append, List.length_singleton, ← hc.calls]
    show _ + (c.cache.size + 1 + _) = _
    omega
  · intro f hf
    rcases List.mem_cons.mp hf with rfl | hf
    · simp [Response.serials_concat, ha, he]
    · exact hc.kept_concat a f hf
  · rw [ha]
    rintro _ ⟨⟩
    exact Nat.le_refl now

/-- A call that fails counts a miss, and its answer is an error. -/
theorem failed (hc : c.Tallies now answers) (ha : a.serial? = none) (hfailed : a.isFailed) :
    Compiler.Tallies (now + 1) (answers ++ [a])
      { c with cache := { c.cache with misses := c.cache.misses + 1 } } := by
  have hfailures : Response.failures (answers ++ [a]) = Response.failures answers + 1 := by
    rw [Response.failures_concat, if_pos hfailed]
  have hrepeats : Response.repeats (answers ++ [a]) = Response.repeats answers := by
    refine Response.repeats_concat_of_notMem ?_
    rw [ha]
    nofun
  refine ⟨?_, ?_, ?_, hc.kept_concat a, hc.earlier_concat ?_⟩
  · rw [hrepeats]
    exact hc.hits
  · rw [hfailures, hc.misses, ← UInt64.ofNat_one, ← UInt64.ofNat_add]
    rfl
  · rw [hrepeats, hfailures, List.length_append, List.length_singleton, ← hc.calls]
    rfl
  · rw [ha]
    nofun

end Tallies

variable [DecidableEq κ] [DecidableEq δ] [Digest δ] {j : Job κ} {call : Call κ δ j.record}

/-- A call keeps the balance. -/
theorem Tallies.serve (hc : c.Tallies now answers) (h : c.Serves now j call) :
    call.compiler.Tallies (now + 1) (answers ++ [.ofCall call]) := by
  cases h with
  | found stored => exact hc.found rfl (hc.kept _ (Cache.mem_of_find? stored))
  | made missing compiled => exact hc.made rfl rfl
  | failed missing refused => exact hc.failed rfl rfl

end Compiler

namespace Session

variable [DecidableEq κ] [DecidableEq δ] [Digest δ]

section Steps

variable {s : Session κ δ} {r : Request κ} {index : Nat} {c d : Compiler κ δ}
  {a : Response κ δ} {done : List (Request κ × Response κ δ)}

/-- The counts of a compiler stay right in every step of its session. -/
theorem Turn.tallies (h : s.Turn r index c a d)
    (hc : c.Tallies s.returned.length (Request.recent index done)) :
    d.Tallies (s.returned.length + 1) (Request.recent index (done ++ [(r, a)])) := by
  cases h with
  | elsewhere other =>
      rw [Request.recent_concat_of_ne other]
      exact hc.mono (Nat.le_succ _)
  | cleared own clearing =>
      subst own
      rw [Request.recent_concat_of_clear clearing]
      exact Compiler.tallies_nil rfl
  | served own asked serves =>
      subst own
      rw [Request.recent_concat_of_job? asked]
      exact hc.serve serves

end Steps

/-- The counters of every compiler agree with its answers, after any requests. -/
theorem tallies_run (options : List Options) (rs : List (Request κ)) (index : Nat)
    (c : Compiler κ δ) (hc : ((start options).run rs).2.compilers[index]? = some c) :
    c.Tallies ((start options : Session κ δ).run rs).2.returned.length
      ((start options : Session κ δ).recentAnswers rs index) := by
  refine run_induction (motive := fun done (t : Session κ δ) => ∀ index c,
    t.compilers[index]? = some c → c.Tallies t.returned.length (Request.recent index done))
    ?_ ?_ rs index c hc
  · intro index c hc
    exact Compiler.tallies_nil (cache_of_start hc)
  · intro done t r x hstep hall index d hd
    obtain ⟨c, hc, hturn⟩ := hstep.turn_of_after hd
    rw [hstep.length_returned]
    exact hturn.tallies (hall index c hc)

/-- **The counters of a compiler.**  At every point of a session, counting since a compiler was
last cleared, its hits and misses together are its calls; its misses are its entries and its
failed calls; and its hits are the calls that returned an object which an earlier one had
returned.  A request to another compiler leaves it as it is.  The calls are few enough to be
counted. -/
theorem run_counters {options : List Options} {requests : List (Request κ)} {index : Nat}
    {c : Compiler κ δ}
    (hc : ((start options : Session κ δ).run requests).2.compilers[index]? = some c)
    (hcount : ((start options : Session κ δ).recentAnswers requests index).length <
      UInt64.size) :
    c.stats.hits.toNat + c.stats.misses.toNat =
        ((start options : Session κ δ).recentAnswers requests index).length ∧
      c.stats.misses.toNat = c.stats.entries +
        Response.failures ((start options : Session κ δ).recentAnswers requests index) ∧
      c.stats.hits.toNat =
        Response.repeats ((start options : Session κ δ).recentAnswers requests index) ∧
      ∀ r : Request κ, r.compiler ≠ index →
        (((start options : Session κ δ).run requests).2.perform r).2.compilers[index]? =
          some c := by
  have htallies := tallies_run options requests index c hc
  generalize (start options : Session κ δ).recentAnswers requests index = answers
    at htallies hcount ⊢
  have hcalls := htallies.calls
  have hhits : c.stats.hits.toNat = Response.repeats answers := by
    show c.cache.hits.toNat = _
    rw [htallies.hits, UInt64.toNat_ofNat_of_lt' (by omega)]
  have hmisses : c.stats.misses.toNat = c.stats.entries + Response.failures answers := by
    show c.cache.misses.toNat = c.cache.size + _
    rw [htallies.misses, UInt64.toNat_ofNat_of_lt' (by omega)]
  refine ⟨?_, hmisses, hhits, fun r hr => ?_⟩
  · rw [hhits, hmisses]
    exact hcalls
  · rw [(perform_steps _ r).getElem?_compilers_of_ne hr, hc]

end Session

/-- Of four calls, the second finds the predicate of the first, and the last one fails. -/
theorem Device.counters_requests :
    ∃ c : Compiler Device Blake3.Hash,
      ((Session.start [{}] : Session Device Blake3.Hash).run
          (Device.requests.take 4)).2.compilers[0]? = some c ∧
        c.stats.hits.toNat + c.stats.misses.toNat = 4 ∧
        c.stats.misses.toNat = c.stats.entries + 1 ∧ c.stats.hits.toNat = 1 := by
  have hlength : ((Session.start [{}] : Session Device Blake3.Hash).recentAnswers
      (Device.requests.take 4) 0).length = 4 := by decide +kernel
  have hfailures : Response.failures ((Session.start [{}] :
      Session Device Blake3.Hash).recentAnswers (Device.requests.take 4) 0) = 1 := by
    decide +kernel
  have hrepeats : Response.repeats ((Session.start [{}] :
      Session Device Blake3.Hash).recentAnswers (Device.requests.take 4) 0) = 1 := by
    decide +kernel
  obtain ⟨c, hc⟩ := Option.isSome_iff_exists.mp (show (((Session.start [{}] :
    Session Device Blake3.Hash).run (Device.requests.take 4)).2.compilers[0]?).isSome by
      decide +kernel)
  have hcounters := Session.run_counters hc (by rw [hlength]; decide)
  rw [hlength, hfailures, hrepeats] at hcounters
  exact ⟨c, hc, hcounters.1, hcounters.2.1, hcounters.2.2.1⟩

end FieldRules
