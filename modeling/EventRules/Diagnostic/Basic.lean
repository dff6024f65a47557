/-
# Diagnostics

Why a text could not be read, as a tree. A leaf is one finding: what is wrong, where, and in how
long a piece of text. A finding may have a cause of its own, and a choice that failed lists the
diagnostics of all its alternatives.

A recoverable diagnostic lets an enclosing choice try another alternative; a fatal one does not.
-/

import EventRules.Source.Cursor

namespace EventRules

/-- What a reader was looking for. -/
inductive Expectation
  | argumentCount (declared found : Nat)
  | keyword (word : Text)
  | symbol (mark : Text)
  | name
  | literal
  | value
  | type
  | stateVariable
  | letter
  | alphanumeric
  | digit
  | hexDigit
  | blank
  | something
  deriving DecidableEq, Repr

/-- What is wrong. -/
inductive Problem
  | expected (expectation : Expectation)
  | internal (scanner : Text)
  | unknownExtractor
  | unknownFilter
  | unknownProducer
  | castNotAllowed (source target : Text)
  | duplicateName
  | nestingTooDeep
  deriving DecidableEq, Repr

/-- Whether an enclosing choice may still try another alternative. -/
inductive Severity
  | recoverable
  | fatal
  deriving DecidableEq, Repr

/-- One thing that is wrong: where it is, if that is known, and the length of the text at fault, if
it is less than all that follows. -/
structure Finding where
  location : Option Cursor
  problem : Problem
  length : Option Nat := none
  severity : Severity := .recoverable
  deriving DecidableEq, Repr

/-- Why a text could not be read. -/
inductive Diagnostic
  | finding (f : Finding)
  | because (f : Finding) (reason : Diagnostic)
  | oneOf (alternatives : List Diagnostic) (severity : Severity)
  deriving Repr

namespace Diagnostic

/-- The severity of a diagnostic is that of its root. -/
def severity : Diagnostic → Severity
  | finding f => f.severity
  | because f _ => f.severity
  | oneOf _ s => s

/-- The diagnostic rules out every other alternative. -/
def isFatal (d : Diagnostic) : Bool :=
  d.severity = .fatal

/-- The diagnostic with a fatal root; the nodes below keep their severity. -/
def escalate : Diagnostic → Diagnostic
  | finding f => finding { f with severity := .fatal }
  | because f reason => because { f with severity := .fatal } reason
  | oneOf alternatives _ => oneOf alternatives .fatal

/-- The alternatives that a diagnostic adds to a choice: those of a failed choice, and otherwise
itself. -/
def alternatives : Diagnostic → List Diagnostic
  | oneOf alternatives _ => alternatives
  | d => [d]

/-- The diagnostic of a choice whose alternatives failed with the given diagnostics, in order. A
failed choice among them adds its alternatives in its place. -/
def combine (failures : List Diagnostic) : Diagnostic :=
  oneOf (failures.flatMap alternatives) .recoverable

/-- At the cursor, something else was expected. -/
def expected (c : Cursor) (e : Expectation) : Diagnostic :=
  finding { location := some c, problem := .expected e }

/-- In the `length` characters at the cursor, something else was expected. -/
def expectedIn (c : Cursor) (length : Nat) (e : Expectation) : Diagnostic :=
  finding { location := some c, problem := .expected e, length := some length }

/-- At the cursor, something else was expected, for a reason. -/
def expectedBecause (c : Cursor) (e : Expectation) (reason : Diagnostic) : Diagnostic :=
  because { location := some c, problem := .expected e } reason

@[simp]
theorem severity_escalate (d : Diagnostic) : d.escalate.severity = .fatal := by
  cases d <;> rfl

end Diagnostic

end EventRules
