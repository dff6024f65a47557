/-
# Attempts

An attempt has a result or fails. Either way it leaves the notes that were made on the way, in
order. Attempts form a monad: one attempt after the other, the notes of both kept, up to
the first failure.
-/

import EventRules.Failure
import EventRules.Note

namespace EventRules

/-- A result or a failure, with the notes made on the way. -/
structure Attempt (α : Type) where
  notes : List Note
  outcome : Except Failure α

namespace Attempt

variable {α β : Type}

/-- The attempt with notes made before it. -/
def after (notes : List Note) (x : Attempt α) : Attempt α :=
  ⟨notes ++ x.notes, x.outcome⟩

/-- An attempt, and then the attempt that its result calls for. -/
protected def bind (x : Attempt α) (f : α → Attempt β) : Attempt β :=
  match x with
  | ⟨notes, .ok a⟩ => (f a).after notes
  | ⟨notes, .error e⟩ => ⟨notes, .error e⟩

instance : Monad Attempt where
  pure a := ⟨[], .ok a⟩
  bind := Attempt.bind

/-- The attempt that fails with a diagnostic. -/
def fail (d : Diagnostic) : Attempt α :=
  ⟨[], .error d⟩

/-- The attempt that only makes a note. -/
def note (n : Note) : Attempt Unit :=
  ⟨[n], .ok ()⟩

/-- The attempt with the outcome of a check. -/
def ofExcept (outcome : Except Failure α) : Attempt α :=
  ⟨[], outcome⟩

/-- The attempt with another diagnostic in case it fails with one. -/
def mapError (f : Diagnostic → Diagnostic) (x : Attempt α) : Attempt α :=
  ⟨x.notes, x.outcome.mapError (Failure.map f)⟩

/-- An attempt is told by its notes and its outcome. -/
@[ext]
theorem ext_outcome {x y : Attempt α} (hnotes : x.notes = y.notes)
    (houtcome : x.outcome = y.outcome) : x = y := by
  cases x; cases y; cases hnotes; cases houtcome; rfl

@[simp]
theorem notes_pure (a : α) : (pure a : Attempt α).notes = [] := rfl

@[simp]
theorem outcome_pure (a : α) : (pure a : Attempt α).outcome = .ok a := rfl

@[simp]
theorem outcome_after (notes : List Note) (x : Attempt α) : (x.after notes).outcome = x.outcome :=
  rfl

@[simp]
theorem outcome_fail (d : Diagnostic) : (fail d : Attempt α).outcome = .error d := rfl

@[simp]
theorem outcome_ofExcept (outcome : Except Failure α) : (ofExcept outcome).outcome = outcome :=
  rfl

@[simp]
theorem outcome_mapError (f : Diagnostic → Diagnostic) (x : Attempt α) :
    (x.mapError f).outcome = x.outcome.mapError (Failure.map f) := rfl

/-- The outcome of two attempts does not depend on their notes. -/
@[simp]
theorem outcome_bind (x : Attempt α) (f : α → Attempt β) :
    (x >>= f).outcome = x.outcome >>= fun a => (f a).outcome := by
  obtain ⟨notes, _ | a⟩ := x <;> rfl

/-- The second attempt adds its notes if the first has a result. -/
theorem notes_bind (x : Attempt α) (f : α → Attempt β) :
    (x >>= f).notes = x.notes ++ (x.outcome.toOption.map fun a => (f a).notes).getD [] := by
  obtain ⟨notes, _ | a⟩ := x
  · exact (List.append_nil notes).symm
  · rfl

theorem id_map (x : Attempt α) : id <$> x = x := by
  obtain ⟨notes, _ | a⟩ := x
  · rfl
  · exact ext_outcome (List.append_nil notes) rfl

theorem bind_assoc {γ : Type} (x : Attempt α) (f : α → Attempt β) (g : β → Attempt γ) :
    x >>= f >>= g = x >>= fun a => f a >>= g := by
  obtain ⟨notes, _ | a⟩ := x
  · rfl
  · change ((f a).after notes).bind g = ((f a).bind g).after notes
    obtain ⟨notes', _ | b⟩ := f a
    · rfl
    · exact ext_outcome (List.append_assoc ..) rfl

instance : LawfulMonad Attempt :=
  LawfulMonad.mk' Attempt id_map (fun _ _ => rfl) bind_assoc

end Attempt

end EventRules
