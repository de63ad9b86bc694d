import FieldRules.Proofs.Counters
import FieldRules.Proofs.History
import Mathlib.Data.Nat.Nth

/-!
# Calls that fail leave no trace

A call that fails counts a miss, and does nothing else.  So calls that fail may be left out of
a session: the other calls are answered as before.  The steps that remain get other numbers,
and with them the objects that they make; but two of them still return one object if and only
if they did before.

**Results.**
* `Compiler.Serves.recount`: a call does the same whatever numbers objects have.
* `Session.Steps.of_failed`: a step that fails counts a miss, and does nothing else.
* `Session.run_without_failed`: a session without some of the calls that fail.
-/

namespace FieldRules

section Without

variable {α : Type} {removed : Finset Nat} {as : List α} {a : α}

/-- A list without the elements at some places. -/
def without (removed : Finset Nat) (as : List α) : List α :=
  (as.zipIdx.filter fun x => x.2 ∉ removed).map Prod.fst

theorem without_concat_of_mem (h : as.length ∈ removed) :
    without removed (as ++ [a]) = without removed as := by
  simp [without, List.zipIdx_append, h]

theorem without_concat_of_notMem (h : as.length ∉ removed) :
    without removed (as ++ [a]) = without removed as ++ [a] := by
  simp [without, List.zipIdx_append, h]

theorem length_without (removed : Finset Nat) (as : List α) :
    (without removed as).length = Nat.count (· ∉ removed) as.length := by
  induction as using List.reverseRecOn with
  | nil => rfl
  | append_singleton as a ih =>
      rw [List.length_append, List.length_singleton, Nat.count_succ]
      by_cases h : as.length ∈ removed
      · rw [without_concat_of_mem h, ih, if_neg (not_not.mpr h), Nat.add_zero]
      · rw [without_concat_of_notMem h, List.length_append, ih, if_pos h, List.length_singleton]

end Without

section Renumbering

variable {κ δ : Type} [RecordTypes κ] {f : Nat → Nat}

/-- An object whose number is another one. -/
def Shared.renumber {ρ : Type} (f : Nat → Nat) (object : Shared ρ) : Shared ρ :=
  { object with serial := f object.serial }

def CacheEntry.renumber (f : Nat → Nat) (e : CacheEntry κ δ) : CacheEntry κ δ :=
  ⟨e.key, e.object.renumber f⟩

/-- An answer that is the same but for the numbers of objects. -/
def Response.renumber (f : Nat → Nat) : Response κ δ → Response κ δ
  | .compiled p log => .compiled ⟨p.record, p.object.renumber f⟩ log
  | .failed e log => .failed e log
  | .cleared => .cleared
  | .noCompiler => .noCompiler

/-- A compiler that is the same but for the numbers of objects, and some misses more. -/
def Compiler.recount (f : Nat → Nat) (lost : Nat) (c : Compiler κ δ) : Compiler κ δ :=
  { c with
    cache :=
      { entries := c.cache.entries.map (CacheEntry.renumber f)
        hits := c.cache.hits
        misses := c.cache.misses + UInt64.ofNat lost } }

def Call.recount {record : κ} (f : Nat → Nat) (lost : Nat) (call : Call κ δ record) :
    Call κ δ record :=
  ⟨call.outcome.map (Shared.renumber f), call.log, call.compiler.recount f lost⟩

theorem Response.ofCall_recount {record : κ} {lost : Nat} (call : Call κ δ record) :
    ofCall (call.recount f lost) = (ofCall call).renumber f := by
  unfold ofCall Call.recount
  cases call.outcome <;> rfl

/-- A compiler that has counted one miss more. -/
def Compiler.miss (c : Compiler κ δ) : Compiler κ δ :=
  { c with cache := { c.cache with misses := c.cache.misses + 1 } }

theorem Compiler.miss_recount (lost : Nat) (c : Compiler κ δ) :
    (c.recount f lost).miss = c.recount f (lost + 1) := by
  unfold miss recount
  dsimp only
  rw [UInt64.ofNat_add, UInt64.add_assoc]
  rfl

variable [DecidableEq κ] [DecidableEq δ]

theorem Cache.find?_renumber (key : CacheKey κ δ) (es : List (CacheEntry κ δ)) :
    find? key (es.map (CacheEntry.renumber f)) = (find? key es).map (Shared.renumber f) := by
  induction es with
  | nil => rfl
  | cons e es ih =>
      by_cases hkey : e.key = key
      · obtain ⟨key', object⟩ := e
        subst hkey
        rw [find?_insert_self]
        exact find?_insert_self _ _ _
      · rw [find?_insert_of_ne hkey, ← ih]
        exact find?_insert_of_ne (e := e.renumber f) hkey _

namespace Compiler

variable [Digest δ] {c : Compiler κ δ} {serial lost : Nat} {j : Job κ} {call : Call κ δ j.record}

/-- There is one way only in which a call may go. -/
theorem Serves.unique (h : c.Serves serial j call) {call' : Call κ δ j.record}
    (h' : c.Serves serial j call') : call = call' := by
  cases h with
  | found stored =>
      cases h' with
      | found stored' =>
          cases stored.symm.trans stored'
          rfl
      | made missing => cases stored.symm.trans missing
      | failed missing => cases stored.symm.trans missing
  | made missing compiled =>
      cases h' with
      | found stored => cases missing.symm.trans stored
      | made _ compiled' =>
          cases compiled.symm.trans compiled'
          rfl
      | failed _ refused => cases compiled.symm.trans refused
  | failed missing refused =>
      cases h' with
      | found stored => cases missing.symm.trans stored
      | made _ compiled => cases refused.symm.trans compiled
      | failed _ refused' =>
          cases refused.symm.trans refused'
          rfl

/-- A call does the same whatever numbers objects have. -/
theorem Serves.recount (h : c.Serves serial j call) :
    (c.recount f lost).Serves (f serial) j (call.recount f lost) := by
  have hfind := Cache.find?_renumber (f := f) (c.keyOf j) c.cache.entries
  have hmisses : c.cache.misses + UInt64.ofNat lost + 1 =
      c.cache.misses + 1 + UInt64.ofNat lost := by
    rw [UInt64.add_assoc, UInt64.add_comm (UInt64.ofNat lost), UInt64.add_assoc]
  cases h with
  | found stored => exact .found (hfind.trans (congrArg _ stored))
  | @made p missing compiled =>
      have hmade : (c.recount f lost).Serves (f serial) j _ :=
        .made (hfind.trans (congrArg _ missing)) compiled
      unfold Call.recount Compiler.recount at hmade ⊢
      rw [hmisses] at hmade
      exact hmade
  | failed missing refused =>
      have hfailed : (c.recount f lost).Serves (f serial) j _ :=
        .failed (hfind.trans (congrArg _ missing)) refused
      unfold Call.recount Compiler.recount at hfailed ⊢
      rw [hmisses] at hfailed
      exact hfailed

/-- A compiler that has lost counts and numbers its objects anew serves a job as before. -/
theorem serve_recount (c : Compiler κ δ) (serial lost : Nat) (j : Job κ) :
    (c.recount f lost).serve (f serial) j = (c.serve serial j).recount f lost :=
  Serves.unique (serve_serves _ _ j) (c.serve_serves serial j).recount

end Compiler

end Renumbering

section Lost

variable {κ : Type} [RecordTypes κ] {removed : Finset Nat} {rs : List (Request κ)}
  {r : Request κ} {index : Nat}

/-- How many of the calls of a compiler since it was last cleared are at some places. -/
def Request.lost (removed : Finset Nat) (rs : List (Request κ)) (index : Nat) : Nat :=
  (recent index rs.zipIdx).countP fun n => n ∈ removed

theorem Request.lost_concat_of_ne (h : r.compiler ≠ index) :
    lost removed (rs ++ [r]) index = lost removed rs index := by
  simp [lost, List.zipIdx_append, recent_concat_of_ne h]

theorem Request.lost_concat_of_clear (hr : r.job? = none) :
    lost removed (rs ++ [r]) r.compiler = 0 := by
  simp [lost, List.zipIdx_append, recent_concat_of_clear hr]

theorem Request.lost_concat_of_job? {j : Job κ} (hj : r.job? = some j) :
    lost removed (rs ++ [r]) r.compiler =
      lost removed rs r.compiler + if rs.length ∈ removed then 1 else 0 := by
  simp [lost, List.zipIdx_append, recent_concat_of_job? hj, List.countP_append,
    List.countP_singleton]

end Lost

namespace Session

variable {κ δ : Type} [RecordTypes κ]

/-- A session that is the same as another one but for the numbers of objects, and some misses
more of every compiler. -/
def Recounts (f lost : Nat → Nat) (s t : Session κ δ) : Prop :=
  ∀ index : Nat, s.compilers[index]? =
    (t.compilers[index]?).map (Compiler.recount f (lost index))

theorem recounts_start (f : Nat → Nat) (options : List Options) :
    (start options : Session κ δ).Recounts f (fun _ => 0) (start options) := by
  intro index
  rw [start, List.getElem?_map]
  cases options[index]? <;> rfl

variable [DecidableEq κ] [DecidableEq δ] [Digest δ] {s t : Session κ δ} {f : Nat → Nat}
  {removed : Finset Nat} {rs : List (Request κ)} {r : Request κ}

theorem ask_of_job? (c : Compiler κ δ) (serial : Nat) {j : Job κ} (hj : r.job? = some j) :
    ask c serial r = (.ofCall (c.serve serial j), (c.serve serial j).compiler) := by
  cases r with
  | compile => cases hj; rfl
  | compileWith => cases hj; rfl
  | clear => cases hj

/-- A compiler that has lost counts and numbers its objects anew answers a request as
before. -/
theorem ask_recount (c : Compiler κ δ) (serial lost : Nat) (r : Request κ) :
    ask (c.recount f lost) (f serial) r =
      ((ask c serial r).1.renumber f,
        (ask c serial r).2.recount f (if r.job?.isSome then lost else 0)) := by
  cases hj : r.job? with
  | none =>
      rw [Request.eq_clear hj]
      rfl
  | some j =>
      rw [ask_of_job? _ _ hj, ask_of_job? _ _ hj, Compiler.serve_recount, Response.ofCall_recount]
      rfl

theorem perform_of_some {c : Compiler κ δ} (hc : s.compilers[r.compiler]? = some c) :
    s.perform r = ((ask c s.returned.length r).1,
      s.record r.compiler (ask c s.returned.length r).2 (ask c s.returned.length r).1) := by
  rw [Session.perform, hc]

theorem perform_of_none (hc : s.compilers[r.compiler]? = none) :
    s.perform r = (.noCompiler, s.pass) := by
  rw [Session.perform, hc]

/-- A step that is not left out does the same whatever numbers objects have. -/
theorem Recounts.perform (h : s.Recounts f (Request.lost removed rs) t)
    (hlength : s.returned.length = f t.returned.length) (hkept : rs.length ∉ removed) :
    (s.perform r).1 = (t.perform r).1.renumber f ∧
      (s.perform r).2.Recounts f (Request.lost removed (rs ++ [r])) (t.perform r).2 := by
  have hr := h r.compiler
  cases hc : t.compilers[r.compiler]? with
  | none =>
      rw [hc, Option.map_none] at hr
      rw [perform_of_none hr, perform_of_none hc]
      refine ⟨rfl, fun index => ?_⟩
      by_cases hindex : r.compiler = index
      · subst hindex
        rw [Session.pass, Session.pass, hr, hc, Option.map_none]
      · rw [Request.lost_concat_of_ne hindex]
        exact h index
  | some c =>
      rw [hc, Option.map_some] at hr
      rw [perform_of_some hr, perform_of_some hc, hlength, ask_recount]
      refine ⟨rfl, fun index => ?_⟩
      by_cases hindex : r.compiler = index
      · subst hindex
        have hlost : Request.lost removed (rs ++ [r]) r.compiler =
            if r.job?.isSome then Request.lost removed rs r.compiler else 0 := by
          cases hj : r.job? with
          | none => exact Request.lost_concat_of_clear hj
          | some j =>
              rw [Request.lost_concat_of_job? hj, if_neg hkept]
              rfl
        rw [record, record, List.getElem?_set_self (List.getElem?_eq_some_iff.mp hr).1,
          List.getElem?_set_self (List.getElem?_eq_some_iff.mp hc).1, Option.map_some, hlost]
      · rw [record, record, List.getElem?_set_ne hindex, List.getElem?_set_ne hindex,
          Request.lost_concat_of_ne hindex]
        exact h index

/-- A step that fails counts a miss, and does nothing else. -/
theorem Steps.of_failed {x : Response κ δ × Session κ δ} (h : s.Steps r x)
    (hx : x.1.isFailed) :
    ∃ c j, s.compilers[r.compiler]? = some c ∧ r.job? = some j ∧
      x.2.compilers = s.compilers.set r.compiler c.miss := by
  cases h with
  | idle => cases hx
  | cleared => cases hx
  | @served c j call present asked serves =>
      cases serves with
      | found => cases hx
      | made => cases hx
      | failed => exact ⟨c, j, present, asked, rfl⟩

/-- A step that is left out does nothing. -/
theorem Recounts.of_failed {x : Response κ δ × Session κ δ}
    (h : s.Recounts f (Request.lost removed rs) t) (hstep : s.Steps r x)
    (hx : x.1.isFailed) (hremoved : rs.length ∈ removed) :
    x.2.Recounts f (Request.lost removed (rs ++ [r])) t := by
  obtain ⟨c, j, hc, hj, hcompilers⟩ := hstep.of_failed hx
  intro index
  rw [hcompilers]
  by_cases hindex : r.compiler = index
  · subst hindex
    obtain ⟨d, hd, rfl⟩ := Option.map_eq_some_iff.mp ((h r.compiler).symm.trans hc)
    rw [List.getElem?_set_self (List.getElem?_eq_some_iff.mp hc).1, hd, Option.map_some,
      Request.lost_concat_of_job? hj, if_pos hremoved, Compiler.miss_recount]
  · rw [List.getElem?_set_ne hindex, Request.lost_concat_of_ne hindex]
    exact h index

/-- A session without some steps that fail: the other steps are answered as before, but for
the numbers of objects, and every compiler is the same at the end, but for the misses. -/
theorem run_recounts (options : List Options)
    (hfailed : ∀ n ∈ removed, ∀ a,
      ((start options : Session κ δ).run rs).1[n]? = some a → a.isFailed) :
    without removed ((start options : Session κ δ).run rs).1 =
        ((start options).run (without removed rs)).1.map
          (Response.renumber (Nat.nth (· ∉ removed))) ∧
      ((start options : Session κ δ).run rs).2.Recounts (Nat.nth (· ∉ removed))
        (Request.lost removed rs) ((start options).run (without removed rs)).2 := by
  induction rs using List.reverseRecOn with
  | nil => exact ⟨rfl, recounts_start _ options⟩
  | append_singleton rs r ih =>
      rw [run_concat] at hfailed ⊢
      obtain ⟨hanswers, hsessions⟩ := ih fun n hn a ha =>
        hfailed n hn a <| getElem?_of_prefix (List.prefix_append _ _) ha
      have hlast : ((start options : Session κ δ).run rs).1.length = rs.length := length_run _ rs
      by_cases hr : rs.length ∈ removed
      · have hx : (((start options : Session κ δ).run rs).2.perform r).1.isFailed := by
          refine hfailed rs.length hr _ ?_
          rw [← hlast, List.getElem?_concat_length]
        rw [without_concat_of_mem (hlast ▸ hr), without_concat_of_mem hr]
        exact ⟨hanswers, hsessions.of_failed (perform_steps _ r) hx hr⟩
      · have hserial : ((start options : Session κ δ).run rs).2.returned.length =
            Nat.nth (· ∉ removed)
              ((start options : Session κ δ).run (without removed rs)).2.returned.length := by
          rw [length_returned_run, length_returned_run, length_without]
          show 0 + rs.length = Nat.nth _ (0 + Nat.count _ rs.length)
          rw [Nat.zero_add, Nat.zero_add, Nat.nth_count hr]
        obtain ⟨hanswer, hsession⟩ := hsessions.perform hserial hr
        rw [without_concat_of_notMem (hlast ▸ hr), without_concat_of_notMem hr, run_concat,
          List.map_append, hanswers]
        exact ⟨congrArg _ (congrArg List.singleton hanswer), hsession⟩

/-- **Calls that fail leave no trace.**  Let any of the calls of a session that fail be left
out.  The other steps are answered as before, with the same predicates and errors, and two of
them return one object if and only if they did before.  At every point, the counters of every
compiler are as before, except that its misses are fewer by its calls since it was last cleared
that have been left out. -/
theorem run_without_failed {options : List Options} {requests : List (Request κ)}
    (hfailed : ∀ n ∈ removed, ∀ a,
      ((start options : Session κ δ).run requests).1[n]? = some a → a.isFailed) :
    (∃ f : Nat → Nat, Function.Injective f ∧
      without removed ((start options : Session κ δ).run requests).1 =
        ((start options).run (without removed requests)).1.map (Response.renumber f)) ∧
    ∀ n index : Nat,
      (((start options : Session κ δ).run (requests.take n)).2.compilers[index]?).map
          Compiler.stats =
        (((start options : Session κ δ).run
            (without removed (requests.take n))).2.compilers[index]?).map fun c =>
          { c.stats with
            misses := c.stats.misses +
              UInt64.ofNat (Request.lost removed (requests.take n) index) } := by
  refine ⟨⟨Nat.nth (· ∉ removed), Nat.nth_injective removed.finite_toSet.infinite_compl,
    (run_recounts options hfailed).1⟩, fun n index => ?_⟩
  have hfailed' : ∀ k ∈ removed, ∀ a,
      ((start options : Session κ δ).run (requests.take n)).1[k]? = some a → a.isFailed := by
    intro k hk a ha
    rw [run_take] at ha
    exact hfailed k hk a <| getElem?_of_prefix (List.take_prefix n _) ha
  have hsessions := (run_recounts options hfailed').2
  rw [hsessions index, Option.map_map]
  refine Option.map_congr fun c _ => ?_
  simp [Compiler.stats, Compiler.recount, Cache.stats, Cache.size]

end Session

/-- A list that fails is left out of a session by structure, in front of two calls with the
same key; the second of them finds the predicate of the first all the same. -/
theorem Device.without_lots :
    (∃ f : Nat → Nat, Function.Injective f ∧
      without {0} ((Session.start [{ keyMode := .structural }] :
          Session Device Blake3.Hash).run (levels ++ [lotsCall])).1 =
        ((Session.start [{ keyMode := .structural }]).run (levels.drop 1 ++ [lotsCall])).1.map
          (Response.renumber f)) ∧
      (((Session.start [{ keyMode := .structural }] : Session Device Blake3.Hash).run
        (levels ++ [lotsCall])).2.compilers[0]?).map Compiler.stats = some ⟨1, 2, 1⟩ := by
  have hfirst : (((Session.start [{ keyMode := .structural }] :
      Session Device Blake3.Hash).run (levels ++ [lotsCall])).1[0]?).all Response.isFailed := by
    decide +kernel
  have hfailed : ∀ n ∈ ({0} : Finset Nat), ∀ a,
      ((Session.start [{ keyMode := .structural }] : Session Device Blake3.Hash).run
        (levels ++ [lotsCall])).1[n]? = some a → a.isFailed := by
    intro n hn a ha
    rw [Finset.mem_singleton.mp hn] at ha
    rwa [ha] at hfirst
  obtain ⟨hanswers, hstats⟩ := Session.run_without_failed hfailed
  have hwithout : without {0} (levels ++ [lotsCall]) = levels.drop 1 ++ [lotsCall] := by
    simp [without, levels]
  rw [hwithout] at hanswers
  exact ⟨hanswers, (hstats 3 0).trans (by decide +kernel)⟩

end FieldRules
