/-
# Rendering of diagnostics

A diagnostic is shown as an indented list: one line for each finding, two spaces for each level.
The line of a finding says what is wrong and where, and quotes an excerpt of the text at fault that
stays on one line and within a given width.
-/

import EventRules.Diagnostic.Basic
import EventRules.Text.Blank
import EventRules.Text.Quoted

namespace EventRules

/-- What was expected, in words. -/
def Expectation.message : Expectation → Text
  | argumentCount declared found =>
    Text.decimal declared ++ " arguments found " ++ Text.decimal found
  | keyword word => "keyword '" ++ word ++ "'"
  | symbol mark => "symbol '" ++ mark ++ "'"
  | name => "a name"
  | literal => "a literal"
  | value => "a value"
  | type => "a type"
  | stateVariable => "a state variable"
  | letter => "an ascii letter"
  | alphanumeric => "an ascii alphanumeric character"
  | digit => "an ascii digit"
  | hexDigit => "a hexadecimal digit"
  | blank => "a space, tab or newline"
  | something => "something"

/-- What is wrong, in words. -/
def Problem.message : Problem → Text
  | expected expectation => "expected " ++ expectation.message
  | internal scanner => "error in " ++ scanner
  | unknownExtractor => "unknown extractor"
  | unknownFilter => "unknown filter"
  | unknownProducer => "unknown producer"
  | castNotAllowed source target => "cast from " ++ source ++ " to " ++ target ++ " not allowed"
  | duplicateName => "name already declared"
  | nestingTooDeep => "nesting too deep"

/-- The first line of a text after the blanks it starts with, without trailing blanks, cut after
`width` characters, in quotation marks; or the remark that nothing is left. -/
def excerpt (width : Nat) (t : Text) : Text :=
  let view := t.trimStart
  if view.isEmpty then "end of input"
  else
    let line := Text.trimEnd (view.takeWhile (· ≠ '\n'))
    if line.length > width then "\"" ++ line.take width ++ "...\"" else "\"" ++ line ++ "\""

/-- One line about a cursor: its location and the start of the text ahead. -/
def Cursor.summary (c : Cursor) : Text :=
  "Cursor(" ++ c.location.text ++ ", " ++ Text.quoted (c.rest.take 16) ++ ")"

namespace Finding

/-- The text at fault. -/
def fragment (f : Finding) : Text :=
  match f.location, f.length with
  | none, _ => []
  | some c, none => c.rest
  | some c, some length => c.rest.take length

/-- The line that shows a finding. -/
def line (width : Nat) (f : Finding) : Text :=
  match f.location with
  | none => f.problem.message
  | some c =>
    f.problem.message ++ " at " ++ c.location.text ++ ": " ++ excerpt width f.fragment

end Finding

namespace Diagnostic

mutual

/-- The lines that show a diagnostic. -/
def lines (width : Nat) : Diagnostic → List Text
  | finding f => [f.line width]
  | because f (oneOf alternatives _) =>
    Text.heading (f.line width ++ " caused by one of:") (linesOfAll width alternatives)
  | because f reason => Text.heading (f.line width ++ " caused by:") (lines width reason)
  | oneOf alternatives _ => Text.heading "one of:" (linesOfAll width alternatives)

/-- The lines that show several diagnostics, one after the other. -/
def linesOfAll (width : Nat) : List Diagnostic → List Text
  | [] => []
  | d :: ds => lines width d ++ linesOfAll width ds

end

/-- A diagnostic as text, its excerpts at most `width` characters long. -/
def render (width : Nat) (d : Diagnostic) : Text :=
  Text.ofLines (lines width d)

/-- The usual width of an excerpt. -/
def defaultWidth : Nat := 32

/-- A severity as a flag. -/
def flagText (d : Diagnostic) : Text :=
  "fatal=" ++ (if d.isFatal then "True" else "False")

/-- One line about a diagnostic: the problem at its root and the start of the text at fault, or the
number of alternatives. -/
def summary (d : Diagnostic) : Text :=
  match d with
  | finding f | because f _ =>
    "BaseError(" ++ f.problem.message ++ ", " ++ Text.quoted (f.fragment.take 20) ++ ", " ++
      d.flagText ++ ")"
  | oneOf alternatives _ =>
    "AltError(" ++ Text.decimal alternatives.length ++ " alternatives, " ++ d.flagText ++ ")"

end Diagnostic

end EventRules
