import FieldRules.Proofs.Calls
import Mathlib.Data.List.DropRight
import Mathlib.Data.List.Induction

/-!
# Traces of sessions

The trace of a session is what has been asked and what has been answered.  What holds of all
traces is shown step by step, and mostly for one compiler at a time: a step is a call for
this compiler, or it clears this compiler, or it is no concern of it.

**Results.**
* `Session.Steps.turn`: what a step is for a compiler.
* `Session.run_induction`: what every step keeps holds after every run.
* `Request.recent_concat_of_job?`: a call comes last among those since the last clearing.
-/

namespace FieldRules

theorem Request.eq_clear {κ : Type} [RecordTypes κ] {r : Request κ} (h : r.job? = none) :
    r = .clear r.compiler := by
  cases r with
  | clear => rfl
  | compile => cases h
  | compileWith => cases h

section Recent

variable {κ α : Type} [RecordTypes κ]

/-- Of notes on requests, those on the calls of a compiler since it was last cleared. -/
def Request.recent (index : Nat) (steps : List (Request κ × α)) : List α :=
  ((steps.filter fun x => x.1.compiler = index).rtakeWhile fun x => x.1.job?.isSome).map
    Prod.snd

variable {index : Nat} {steps : List (Request κ × α)} {r : Request κ} {note : α}

theorem Request.recent_concat_of_ne (h : r.compiler ≠ index) :
    recent index (steps ++ [(r, note)]) = recent index steps := by
  simp [recent, h]

theorem Request.recent_concat_of_job? {j : Job κ} (hj : r.job? = some j) :
    recent r.compiler (steps ++ [(r, note)]) = recent r.compiler steps ++ [note] := by
  simp [recent, hj]

theorem Request.recent_concat_of_clear (hr : r.job? = none) :
    recent r.compiler (steps ++ [(r, note)]) = [] := by
  simp [recent, hr]

end Recent

namespace Session

variable {κ δ : Type} [RecordTypes κ] [DecidableEq κ] [DecidableEq δ] [Digest δ]
variable {s : Session κ δ} {r : Request κ} {x : Response κ δ × Session κ δ} {index : Nat}
  {c d : Compiler κ δ}

/-- What a step is for the compiler at a place: its answer, and the compiler after it. -/
inductive Turn (s : Session κ δ) (r : Request κ) (index : Nat) (c : Compiler κ δ) :
    Response κ δ → Compiler κ δ → Prop
  | elsewhere {answer : Response κ δ} (other : r.compiler ≠ index) :
      Turn s r index c answer c
  | cleared (own : r.compiler = index) (clearing : r.job? = none) :
      Turn s r index c .cleared c.clear
  | served {j : Job κ} {call : Call κ δ j.record} (own : r.compiler = index)
      (asked : r.job? = some j) (serves : c.Serves s.returned.length j call) :
      Turn s r index c (.ofCall call) call.compiler

theorem Steps.getElem?_compilers_of_ne (h : s.Steps r x) (hr : r.compiler ≠ index) :
    x.2.compilers[index]? = s.compilers[index]? := by
  cases h with
  | idle => rfl
  | cleared => exact List.getElem?_set_ne hr
  | served => exact List.getElem?_set_ne hr

/-- Every step is a turn for every compiler. -/
theorem Steps.turn (h : s.Steps r x) (hc : s.compilers[index]? = some c) :
    ∃ d, x.2.compilers[index]? = some d ∧ s.Turn r index c x.1 d := by
  by_cases hindex : r.compiler = index
  · subst hindex
    have hlt : r.compiler < s.compilers.length := (List.getElem?_eq_some_iff.mp hc).1
    cases h with
    | idle absent =>
        rw [hc] at absent
        cases absent
    | @cleared b present clearing =>
        obtain rfl : c = b := Option.some.inj (hc.symm.trans present)
        exact ⟨c.clear, List.getElem?_set_self hlt, .cleared rfl clearing⟩
    | @served b j call present asked serves =>
        obtain rfl : c = b := Option.some.inj (hc.symm.trans present)
        exact ⟨call.compiler, List.getElem?_set_self hlt, .served rfl asked serves⟩
  · exact ⟨c, (h.getElem?_compilers_of_ne hindex).trans hc, .elsewhere hindex⟩

theorem Steps.length_compilers (h : s.Steps r x) :
    x.2.compilers.length = s.compilers.length := by
  cases h with
  | idle => rfl
  | cleared => exact List.length_set
  | served => exact List.length_set

/-- A compiler after a step was there before it. -/
theorem Steps.turn_of_after (h : s.Steps r x) (hd : x.2.compilers[index]? = some d) :
    ∃ c, s.compilers[index]? = some c ∧ s.Turn r index c x.1 d := by
  have hlt : index < s.compilers.length := by
    rw [← h.length_compilers]
    exact (List.getElem?_eq_some_iff.mp hd).1
  obtain ⟨d', hd', hturn⟩ := h.turn (List.getElem?_eq_getElem hlt)
  obtain rfl : d = d' := Option.some.inj (hd.symm.trans hd')
  exact ⟨s.compilers[index], List.getElem?_eq_getElem hlt, hturn⟩

theorem Steps.exists_compiler (h : s.Steps r x) (hx : x.1 ≠ .noCompiler) :
    ∃ d, x.2.compilers[r.compiler]? = some d := by
  cases h with
  | idle => exact absurd rfl hx
  | cleared present =>
      exact ⟨_, List.getElem?_set_self (List.getElem?_eq_some_iff.mp present).1⟩
  | served present =>
      exact ⟨_, List.getElem?_set_self (List.getElem?_eq_some_iff.mp present).1⟩

omit [DecidableEq κ] [DecidableEq δ] [Digest δ] in
theorem cache_of_start {options : List Options}
    (hc : (start options : Session κ δ).compilers[index]? = some c) : c.cache = .empty := by
  obtain ⟨o, -, rfl⟩ := List.mem_map.mp (List.mem_of_getElem? hc)
  rfl

/-- The trace of a session: the requests with their answers. -/
def trace (s : Session κ δ) (rs : List (Request κ)) : List (Request κ × Response κ δ) :=
  rs.zip (s.run rs).1

/-- The answers to the calls of a compiler since it was last cleared. -/
def recentAnswers (s : Session κ δ) (rs : List (Request κ)) (index : Nat) :
    List (Response κ δ) :=
  Request.recent index (s.trace rs)

theorem run_append (s : Session κ δ) (rs qs : List (Request κ)) :
    s.run (rs ++ qs) =
      ((s.run rs).1 ++ ((s.run rs).2.run qs).1, ((s.run rs).2.run qs).2) := by
  induction rs generalizing s with
  | nil => rfl
  | cons r rs ih => simp only [List.cons_append, run, ih]

theorem run_concat (s : Session κ δ) (rs : List (Request κ)) (r : Request κ) :
    s.run (rs ++ [r]) =
      ((s.run rs).1 ++ [((s.run rs).2.perform r).1], ((s.run rs).2.perform r).2) :=
  s.run_append rs [r]

theorem length_run (s : Session κ δ) (rs : List (Request κ)) :
    (s.run rs).1.length = rs.length := by
  induction rs generalizing s with
  | nil => rfl
  | cons q rs ih => rw [run, List.length_cons, List.length_cons, ih]

theorem trace_append (s : Session κ δ) (rs qs : List (Request κ)) :
    s.trace (rs ++ qs) = s.trace rs ++ (s.run rs).2.trace qs := by
  unfold trace
  rw [run_append, List.zip_append (s.length_run rs).symm]

theorem trace_concat (s : Session κ δ) (rs : List (Request κ)) (r : Request κ) :
    s.trace (rs ++ [r]) = s.trace rs ++ [(r, ((s.run rs).2.perform r).1)] :=
  s.trace_append rs [r]

theorem length_trace (s : Session κ δ) (rs : List (Request κ)) :
    (s.trace rs).length = rs.length := by
  rw [trace, List.length_zip, length_run, Nat.min_self]

theorem length_returned_run (s : Session κ δ) (rs : List (Request κ)) :
    (s.run rs).2.returned.length = s.returned.length + rs.length := by
  induction rs generalizing s with
  | nil => rfl
  | cons r rs ih =>
      rw [run, ih, returned_perform, List.length_append, List.length_singleton, List.length_cons,
        Nat.add_assoc, Nat.add_comm 1]

theorem exists_trace {rs : List (Request κ)} {n : Nat} (h : rs[n]? = some r) :
    ∃ a, (s.trace rs)[n]? = some (r, a) := by
  have hlt : n < (s.run rs).1.length := by
    rw [length_run]
    exact (List.getElem?_eq_some_iff.mp h).1
  exact ⟨_, List.getElem?_zip_eq_some.mpr ⟨h, List.getElem?_eq_getElem hlt⟩⟩

/-- The answers to the first requests do not depend on later ones. -/
theorem run_take (s : Session κ δ) (rs : List (Request κ)) (n : Nat) :
    (s.run (rs.take n)).1 = (s.run rs).1.take n := by
  have hsplit := s.run_append (rs.take n) (rs.drop n)
  rw [List.take_append_drop] at hsplit
  rcases Nat.le_total n rs.length with hn | hn
  · rw [hsplit, List.take_left']
    rw [length_run, List.length_take, Nat.min_eq_left hn]
  · rw [List.take_of_length_le hn, List.take_of_length_le (by rwa [length_run])]

theorem trace_take (s : Session κ δ) (rs : List (Request κ)) (n : Nat) :
    s.trace (rs.take n) = (s.trace rs).take n := by
  rw [trace, run_take, trace, List.zip_eq_zipWith, List.zip_eq_zipWith, List.take_zipWith]

/-- A step in the trace of a session is performed after those before it. -/
theorem trace_step {rs : List (Request κ)} {n : Nat} {a : Response κ δ}
    (h : (s.trace rs)[n]? = some (r, a)) :
    rs.take (n + 1) = rs.take n ++ [r] ∧ a = ((s.run (rs.take n)).2.perform r).1 := by
  have hr : rs[n]? = some r := (List.getElem?_zip_eq_some.mp h).1
  have htake : rs.take (n + 1) = rs.take n ++ [r] := by
    rw [List.take_add_one, hr, Option.toList_some]
  have hlength : (s.trace (rs.take n)).length = n := by
    rw [length_trace, List.length_take]
    exact Nat.min_eq_left (Nat.le_of_lt (List.getElem?_eq_some_iff.mp hr).1)
  refine ⟨htake, ?_⟩
  have hlast := s.trace_take rs (n + 1)
  rw [htake, trace_concat] at hlast
  have hn := congrArg (fun steps => steps[n]?) hlast
  rw [List.getElem?_take_of_lt (Nat.lt_succ_self n), h,
    List.getElem?_append_right (Nat.le_of_eq hlength), hlength, Nat.sub_self] at hn
  exact (congrArg Prod.snd (Option.some.inj hn)).symm

/-- What holds at first and is kept by every step holds after every run. -/
theorem run_induction {motive : List (Request κ × Response κ δ) → Session κ δ → Prop}
    (hs : motive [] s)
    (hstep : ∀ {done : List (Request κ × Response κ δ)} {t : Session κ δ} {r : Request κ}
      {x : Response κ δ × Session κ δ}, t.Steps r x → motive done t →
        motive (done ++ [(r, x.1)]) x.2)
    (rs : List (Request κ)) : motive (s.trace rs) (s.run rs).2 := by
  induction rs using List.reverseRecOn with
  | nil => exact hs
  | append_singleton rs r ih =>
      rw [trace_concat, run_concat]
      exact hstep ((s.run rs).2.perform_steps r) ih

end Session

end FieldRules
