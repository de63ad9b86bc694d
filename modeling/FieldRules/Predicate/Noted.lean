/-!
# Outcomes with notes

A computation that may fail and notes what it does on the way.  A failure ends it;
what was noted before stays.

**Results.**
* `outcome_bind`: the outcome does not depend on the notes.
* `notes_bind`: the notes of a sequence, as far as it got.
-/

namespace FieldRules

/-- An outcome with the notes made on the way to it. -/
structure Noted (ν ε α : Type) where
  notes : List ν
  outcome : Except ε α

namespace Noted

variable {ν ε α β : Type}

/-- The outcome of a computation that notes nothing. -/
def of (outcome : Except ε α) : Noted ν ε α :=
  ⟨[], outcome⟩

def note (n : ν) : Noted ν ε Unit :=
  ⟨[n], .ok ()⟩

/-- Goes on with the value of a computation, if there is one. -/
def andThen (x : Noted ν ε α) (f : α → Noted ν ε β) : Noted ν ε β :=
  match x.outcome with
  | .ok a => ⟨x.notes ++ (f a).notes, (f a).outcome⟩
  | .error e => ⟨x.notes, .error e⟩

instance : Monad (Noted ν ε) where
  pure a := of (.ok a)
  bind := andThen

@[simp] theorem notes_pure (a : α) : (pure a : Noted ν ε α).notes = [] := rfl

@[simp] theorem outcome_of (x : Except ε α) : (of x : Noted ν ε α).outcome = x := rfl

@[simp] theorem notes_of (x : Except ε α) : (of x : Noted ν ε α).notes = [] := rfl

@[simp] theorem outcome_note (n : ν) : (note n : Noted ν ε Unit).outcome = .ok () := rfl

@[simp] theorem notes_note (n : ν) : (note n : Noted ν ε Unit).notes = [n] := rfl

/-- The outcome of a sequence does not depend on the notes. -/
@[simp] theorem outcome_bind (x : Noted ν ε α) (f : α → Noted ν ε β) :
    (x >>= f).outcome = x.outcome >>= fun a => (f a).outcome := by
  show (andThen x f).outcome = _
  unfold andThen
  cases x.outcome <;> rfl

/-- A sequence notes what its first part does, and then, if that succeeds, what its
second part does. -/
@[simp] theorem notes_bind (x : Noted ν ε α) (f : α → Noted ν ε β) :
    (x >>= f).notes =
      x.notes ++
        match x.outcome with
        | .ok a => (f a).notes
        | .error _ => [] := by
  show (andThen x f).notes = _
  unfold andThen
  cases x.outcome <;> simp

end Noted
end FieldRules
