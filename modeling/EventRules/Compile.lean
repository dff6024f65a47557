/-
# Compilation

A program is compiled by reading its statements one after the other. A declaration extends the
symbol table for the statements that follow, and a rule is added to the rules so far. The first
failure ends the compilation.
-/

import EventRules.Diagnostic.Render
import EventRules.File
import EventRules.Grammar.Statement
import EventRules.Source.Comment

namespace EventRules

/-- How a program is compiled: its name, the width of excerpts in messages, whether the event codes
are predefined, and whether a declaration may replace an earlier one. -/
structure Options where
  name : Text := "<input>"
  width : Nat := Diagnostic.defaultWidth
  eventCodes : Bool := true
  redeclaration : Bool := false
  width_pos : 0 < width := by decide

/-- Why options are refused. -/
inductive OptionsError
  | widthNotPositive
  deriving DecidableEq, Repr

/-- The description of why options are refused. -/
def OptionsError.message : OptionsError → Text
  | widthNotPositive => "max_location_length must be positive"

/-- The options with the given fields. -/
def Options.make (name : Text) (width : Int) (eventCodes redeclaration : Bool) :
    Except OptionsError Options :=
  if h : 0 < width.toNat then
    .ok { name, width := width.toNat, eventCodes, redeclaration, width_pos := h }
  else .error .widthNotPositive

/-- What the statements so far have led to. -/
structure Progress where
  symbols : Symbols
  processors : List EventProcessor := []
  statementCount : Nat := 0

/-- A compiled program with the names it has introduced. -/
structure Program where
  name : Text
  config : Config
  statementCount : Nat
  constants : Table Text Literal
  slots : Table Text Nat
  deriving DecidableEq

namespace Progress

/-- Takes in a statement, with a note on it. -/
def add (p : Progress) : Statement → Except Failure (Note × Progress)
  | .rule r =>
    .ok (.processorAdded p.processors.length,
      { p with processors := p.processors ++ [r], statementCount := p.statementCount + 1 })
  | .declaration d => do
    let (n, symbols) ← (p.symbols.declare d).mapError .diagnostic
    return (n, { p with symbols, statementCount := p.statementCount + 1 })
  | .clause _ => .error (.fault .notAStatement)

variable [NestingLimit]

/-- Reads a statement and takes it in. -/
def step (p : Progress) : Parser Progress := do
  let s ← Parser.statement p.symbols.toScope
  let (n, p) ← Parser.ofExcept (p.add s)
  Parser.note n
  return p

/-- Takes in the statements from a cursor to the end of its source. -/
def run (p : Progress) (c : Cursor) : Attempt Progress :=
  if c.skipSpace.atEnd then pure p
  else do
    let (p', c') ← p.step.run c.skipSpace
    if _h : c'.remaining < c.remaining then run p' c' else return p'
  termination_by c.remaining

/-- The configuration that the statements so far describe. -/
def config (p : Progress) : Config where
  initialState := p.symbols.initialState
  processors := p.processors
  peripherals := p.symbols.peripherals

/-- The program that the statements so far make up. -/
def program (p : Progress) (name : Text) : Program where
  name := name
  config := p.config
  statementCount := p.statementCount
  constants := p.symbols.constants
  slots := p.symbols.slots

end Progress

/-- The note on a program that was compiled. -/
def Program.note (p : Program) : Note :=
  .compiled p.name p.config.initialState.size p.config.processors.length p.config.peripherals.size

namespace Options

/-- The progress before the first statement. -/
def start (o : Options) : Progress where
  symbols := Symbols.initial o.eventCodes o.redeclaration

variable [NestingLimit]

/-- Compiles a source. -/
def compile (o : Options) (source : Source) : Attempt Program :=
  let bare : Source := { source with text := Comment.blank source.text }
  match o.start.run bare.start with
  | ⟨notes, .error (.fault f)⟩ => ⟨notes, .error f⟩
  | ⟨notes, .error (.diagnostic d)⟩ =>
    ⟨notes ++ [.failed source.name (d.render o.width)], .error d⟩
  | ⟨notes, .ok p⟩ =>
    let program := p.program source.name
    ⟨notes ++ [program.note], .ok program⟩

/-- Compiles a program text under a name of its own, or under that of the options if its own is
empty. -/
def compileText (o : Options) (name text : Text) : Attempt Program :=
  o.compile ⟨if name.isEmpty then o.name else name, text⟩

/-- Compiles the file that is found under a path. The path is also the name of the program. -/
def compileFile (o : Options) (lookup : Text → Except PathFault Node) (path : Text) :
    Except ReadFault (Attempt Program) :=
  match lookup (Path.plain path) with
  | .error .nameTooLong => .error (.nameTooLong (Path.plain path))
  | .error _ => .error (.missing path)
  | .ok .directory => .error (.isADirectory (Path.plain path))
  | .ok (.file octets) =>
    match Utf8.decode octets with
    | .error r => .error (.notText r)
    | .ok text => .ok (o.compileText path text.unifyNewlines)

end Options

end EventRules
