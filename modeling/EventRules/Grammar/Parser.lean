/-
# Parsers

A parser reads a value at a cursor and moves the cursor on, or fails. Either way it leaves the notes
it made. The monad runs one parser after the other; the combinators choose
between parsers, commit to one, and repeat.

A choice passes over an alternative that fails recoverably. Once a parser has committed, its
failures are fatal, and no enclosing choice, option or repetition passes over them.
-/

import EventRules.Attempt

namespace EventRules

/-- Reads a value at a cursor and moves the cursor on. -/
def Parser (α : Type) : Type :=
  StateT Cursor Attempt α

namespace Parser

variable {α β : Type}

instance : Monad Parser :=
  inferInstanceAs (Monad (StateT Cursor Attempt))

instance : LawfulMonad Parser :=
  inferInstanceAs (LawfulMonad (StateT Cursor Attempt))

/-- The attempt to read a value at a cursor: the value and the cursor after it. -/
def run (p : Parser α) (c : Cursor) : Attempt (α × Cursor) :=
  p c

/-- Fails with a diagnostic. -/
def fail (d : Diagnostic) : Parser α := fun _ =>
  .fail d

/-- The value, or the failure, of a check. -/
def ofExcept (outcome : Except Failure α) : Parser α := fun c =>
  .ofExcept (outcome.map (·, c))

/-- The value that has to be there; if it is not, the parser is at fault. -/
def demand (f : Fault) (x : Option α) : Parser α :=
  ofExcept (x.elim (.error f) .ok)

/-- Makes a note. -/
def note (n : Note) : Parser Unit := fun c =>
  ⟨[n], .ok ((), c)⟩

/-- The cursor at which the next parser starts. -/
def here : Parser Cursor := fun c =>
  pure (c, c)

/-- Moves the cursor on and gives the text in between. -/
def take (count : Nat) : Parser Text := fun c =>
  pure (c.rest.take count, c.advance count)

/-- Makes every failure of a parser fatal. -/
def committed (p : Parser α) : Parser α := fun c =>
  (p.run c).mapError Diagnostic.escalate

/-- Tries the parsers in order where earlier alternatives have failed with the given
diagnostics. -/
def choice : List Diagnostic → List (Parser α) → Parser α
  | failures, [] => fail (.combine failures)
  | failures, p :: ps => fun c =>
    match p.run c with
    | ⟨notes, .ok r⟩ => ⟨notes, .ok r⟩
    | ⟨notes, .error (.fault f)⟩ => ⟨notes, .error f⟩
    | ⟨notes, .error (.diagnostic d)⟩ =>
      if d.isFatal then ⟨notes, .error d⟩ else ((choice (failures ++ [d]) ps).run c).after notes

/-- The first of the parsers that succeeds. A fatal failure ends the search; if all fail
recoverably, the diagnostic lists their failures. -/
def alt (ps : List (Parser α)) : Parser α :=
  choice [] ps

/-- What the parser reads, or nothing if it fails recoverably. -/
def optional (p : Parser α) : Parser (Option α) := fun c =>
  match p.run c with
  | ⟨notes, .ok (a, c')⟩ => ⟨notes, .ok (some a, c')⟩
  | ⟨notes, .error e⟩ => ⟨notes, if e.isFatal then .error e else .ok (none, c)⟩

/-- Repeats a parser until it fails recoverably or gets no closer to the end of the source; such a
last reading does not count. -/
def many0 (p : Parser α) : Parser (List α) := fun c =>
  match p.run c with
  | ⟨notes, .ok (a, c')⟩ =>
    if _h : c'.remaining < c.remaining then
      (do
        let (as, last) ← many0 p c'
        return (a :: as, last) : Attempt _).after notes
    else ⟨notes, .ok ([], c)⟩
  | ⟨notes, .error e⟩ => ⟨notes, if e.isFatal then .error e else .ok ([], c)⟩
  termination_by c => c.remaining

/-- Repeats a parser that has to succeed at first. -/
def many1 (p : Parser α) : Parser (List α) := do
  let first ← p
  let rest ← many0 p
  return first :: rest

@[simp]
theorem run_pure (a : α) (c : Cursor) : (pure a : Parser α).run c = pure (a, c) := rfl

@[simp]
theorem run_bind (p : Parser α) (f : α → Parser β) (c : Cursor) :
    (p >>= f).run c = p.run c >>= fun (a, c') => (f a).run c' := rfl

@[simp]
theorem run_fail (d : Diagnostic) (c : Cursor) : (fail d : Parser α).run c = .fail d := rfl

@[simp]
theorem run_ofExcept (outcome : Except Failure α) (c : Cursor) :
    (ofExcept outcome).run c = .ofExcept (outcome.map (·, c)) := rfl

@[simp]
theorem run_note (n : Note) (c : Cursor) : (note n).run c = ⟨[n], .ok ((), c)⟩ := rfl

@[simp]
theorem run_committed (p : Parser α) (c : Cursor) :
    (committed p).run c = (p.run c).mapError Diagnostic.escalate := rfl

@[simp]
theorem run_here (c : Cursor) : here.run c = pure (c, c) := rfl

@[simp]
theorem run_take (count : Nat) (c : Cursor) :
    (take count).run c = pure (c.rest.take count, c.advance count) := rfl

end Parser

end EventRules
