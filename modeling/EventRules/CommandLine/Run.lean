/-
# The command line

The command compiles one file and prints the configuration, or writes it to another file. It ends
with 0 when all went well, with 1 when the program does not compile, with 2 when the arguments are
wrong or a file is not there, and with 3 on any other failure.
-/

import EventRules.CommandLine.Usage

namespace EventRules.CommandLine

/-- Why a command failed after its arguments were accepted. -/
inductive Failure
  | diagnostic (d : Diagnostic)
  | program (message : Text)
  | unavailable (message : Text)
  | internal (message : Text)

namespace Failure

/-- The report on a failure, with excerpts of the given width. -/
def report (width : Nat) : Failure → Text
  | diagnostic d => d.render width ++ "\n"
  | program message | unavailable message => "Error: " ++ message ++ "\n"
  | internal message => "Internal error: " ++ message ++ "\n"

/-- The code with which a failed command ends. -/
def exitCode : Failure → Nat
  | diagnostic _ | program _ => 1
  | unavailable _ => 2
  | internal _ => 3

/-- The failure of a command that could not read its input. -/
def ofReadFault (f : ReadFault) : Failure :=
  match f with
  | .missing _ => unavailable f.message
  | .isADirectory _ | .nameTooLong _ | .notText _ => internal f.message

/-- The failure of a command that could not write its output. -/
def ofWriteFault (f : WriteFault) (path : Text) : Failure :=
  match f with
  | .noSuchDirectory | .denied => unavailable (f.message path)
  | .notADirectory | .isADirectory | .nameTooLong => internal (f.message path)

end Failure

/-- What a command has done: its exit code and what it printed. -/
structure Finished where
  exitCode : Nat := 0
  output : Text := ""
  errors : Text := ""
  deriving DecidableEq, Repr

/-- What is left to do once a command has worked out everything. -/
inductive Plan
  | finish (f : Finished)
  | write (path text : Text) (written : Finished) (refused : WriteFault → Finished)

/-- The version of the command. -/
def versionText : Text := "rossc, version 1.0.0\n"

/-- The help on the command. -/
def helpText : Text :=
  Text.ofLines [
    "Usage: rossc [OPTIONS] INPUT_FILE",
    "",
    "  Compile a rule-language program.",
    "",
    "  INPUT_FILE is the program source.",
    "",
    "  Examples:",
    "      rossc rules.ross                # Print the configuration",
    "      rossc rules.ross -o rules.txt   # Write it to a file",
    "      rossc -v rules.ross             # Log every statement",
    "",
    "Options:",
    "  -o, --output FILE          Write the configuration to this file instead of",
    "                             stdout",
    "  -w, --width INTEGER RANGE  Width of source excerpts in error messages",
    "                             [default: 32; x>=1]",
    "  --allow-redeclaration      Let later declarations replace earlier ones",
    "  --no-event-codes           Do not predefine the protocol *_EVENT_CODE",
    "                             constants",
    "  -v, --verbose              Verbose output",
    "  --version                  Show the version and exit.",
    "  --help                     Show this message and exit.",
    ""]

/-- The notes of a compilation as they are printed. -/
def noteLines (notes : List Note) : Text :=
  notes.flatMap fun n => n.line ++ "\n"

variable [NestingLimit]

/-- The plan that compiles an input file. -/
def planCompile (lookup : Text → Except PathFault Node) (input : Text) (output : Option Text)
    (o : Options) (verbose : Bool) : Plan :=
  let opening := if verbose then "Compiling " ++ input ++ "...\n" else ""
  match o.compileFile lookup input with
  | .error f =>
    let failure := Failure.ofReadFault f
    .finish ⟨failure.exitCode, opening, failure.report o.width⟩
  | .ok ⟨notes, outcome⟩ =>
    let log := if verbose then noteLines notes else ""
    let failed (failure : Failure) : Finished :=
      ⟨failure.exitCode, opening, log ++ failure.report o.width⟩
    match outcome with
    | .error (.diagnostic d) => .finish (failed (.diagnostic d))
    | .error (.fault f) => .finish (failed (.internal f.message))
    | .ok program =>
      let text := program.config.describe ++ "\n"
      let closing :=
        if verbose then "Statements: " ++ Text.decimal program.statementCount ++ "\n" else ""
      match output with
      | none => .finish ⟨0, opening ++ text ++ closing, log⟩
      | some path =>
        .write path text
          ⟨0, opening ++ "Compiled " ++ input ++ " -> " ++ path ++ "\n" ++ closing, log⟩
          fun fault => failed (.ofWriteFault fault path)

/-- The plan for the given arguments. -/
def plan (lookup : Text → Except PathFault Node) (arguments : List Text) : Plan :=
  match Request.ofArguments lookup arguments with
  | .error e => .finish ⟨2, "", e.report⟩
  | .ok .version => .finish ⟨0, versionText, ""⟩
  | .ok .help => .finish ⟨0, helpText, ""⟩
  | .ok (.compile input output options verbose) =>
    planCompile lookup input output options verbose

end EventRules.CommandLine
