/-
# Arguments of the command line

Arguments are options and, mixed with them, the name of one input file. An option has a long name
after two dashes, and may have a letter after one; letters may be strung together, and a value may
follow its option directly. Two dashes alone end the options.

The options that only give information come first. All other arguments are looked at in the order
in which they were given, the input file last, and the first that is wrong is reported.
-/

import EventRules.Compile
import EventRules.Text.Integer

namespace EventRules.CommandLine

/-- The options of the command line. -/
inductive Switch
  | output
  | width
  | redeclaration
  | noEventCodes
  | verbose
  | version
  | help
  deriving DecidableEq, Repr

namespace Switch

/-- The options. -/
def all : List Switch :=
  [output, width, redeclaration, noEventCodes, verbose, version, help]

/-- The long name of an option. -/
def longName : Switch → Text
  | output => "--output"
  | width => "--width"
  | redeclaration => "--allow-redeclaration"
  | noEventCodes => "--no-event-codes"
  | verbose => "--verbose"
  | version => "--version"
  | help => "--help"

/-- The letter of an option. -/
def letter? : Switch → Option Char
  | output => some 'o'
  | width => some 'w'
  | verbose => some 'v'
  | _ => none

/-- Whether an option has a value. -/
def hasValue : Switch → Bool
  | output | width => true
  | _ => false

end Switch

/-- Why the arguments are refused. -/
inductive UsageError
  | noSuchOption (name : Text)
  | valueMissing (name : Text)
  | valueUnwanted (name : Text)
  | invalidWidth (reason : Text)
  | invalidOutput (reason : Text)
  | invalidInput (reason : Text)
  | inputMissing
  | extraArguments (arguments : List Text)
  deriving DecidableEq, Repr

namespace UsageError

/-- What is wrong with the arguments. -/
def message : UsageError → Text
  | noSuchOption name => "No such option: " ++ name
  | valueMissing name => "Option " ++ name.quoted ++ " requires an argument."
  | valueUnwanted name => "Option " ++ name.quoted ++ " does not take a value."
  | invalidWidth reason => "Invalid value for '-w' / '--width': " ++ reason
  | invalidOutput reason => "Invalid value for '-o' / '--output': " ++ reason
  | invalidInput reason => "Invalid value for 'INPUT_FILE': " ++ reason
  | inputMissing => "Missing argument 'INPUT_FILE'."
  | extraArguments arguments =>
    "Got unexpected extra argument" ++ (if arguments.length = 1 then "" else "s") ++ " (" ++
      Text.join " " arguments ++ ")"

/-- The report on arguments that are refused. The usage is shown first, except where an option and
its value do not go together. -/
def report (e : UsageError) : Text :=
  let usage : Text :=
    match e with
    | valueMissing _ | valueUnwanted _ => ""
    | _ => "Usage: rossc [OPTIONS] INPUT_FILE\nTry 'rossc --help' for help.\n\n"
  usage ++ "Error: " ++ e.message ++ "\n"

end UsageError

/-- Arguments by kind: options with their values, in order, and all other arguments. -/
structure SortedArguments where
  switches : List (Switch × Text) := []
  others : List Text := []

namespace SortedArguments

/-- The arguments with an option before them. -/
def withSwitch (s : Switch) (value : Text) (a : SortedArguments) : SortedArguments :=
  { a with switches := (s, value) :: a.switches }

/-- The arguments with another argument before them. -/
def withOther (argument : Text) (a : SortedArguments) : SortedArguments :=
  { a with others := argument :: a.others }

/-- The last value that was given for an option. -/
def value? (a : SortedArguments) (s : Switch) : Option Text :=
  (a.switches.reverse.find? (·.1 = s)).map (·.2)

/-- Whether an option was given. -/
def has (a : SortedArguments) (s : Switch) : Bool :=
  (a.value? s).isSome

end SortedArguments

/-- The value of an option that was given under `name`: the next argument, which is removed. -/
def nextValue (name : Text) : List Text → Except UsageError (Text × List Text)
  | [] => .error (.valueMissing name)
  | value :: arguments => .ok (value, arguments)

/-- Reads letters of options that are strung together, before further arguments. Gives the options
with their values and the arguments that are left. -/
def readLetters : Text → List Text →
    Except UsageError (List (Switch × Text) × List Text)
  | [], arguments => .ok ([], arguments)
  | c :: letters, arguments =>
    match Switch.all.find? (·.letter? = some c) with
    | none => .error (.noSuchOption ['-', c])
    | some s =>
      if s.hasValue then
        if letters.isEmpty then do
          let (value, arguments) ← nextValue ['-', c] arguments
          return ([(s, value)], arguments)
        else .ok ([(s, letters)], arguments)
      else do
        let (switches, arguments) ← readLetters letters arguments
        return ((s, []) :: switches, arguments)

/-- Reads an argument that starts with a dash, before further arguments. -/
def readOption (argument : Text) (arguments : List Text) :
    Except UsageError (List (Switch × Text) × List Text) :=
  let (name, attached) :=
    match Text.cut? '=' argument with
    | some (name, value) => (name, some value)
    | none => (argument, none)
  match Switch.all.find? (·.longName = name) with
  | some s =>
    match s.hasValue, attached with
    | true, some value => .ok ([(s, value)], arguments)
    | true, none => do
      let (value, arguments) ← nextValue name arguments
      return ([(s, value)], arguments)
    | false, some _ => .error (.valueUnwanted name)
    | false, none => .ok ([(s, [])], arguments)
  | none =>
    if argument.take 2 = "--" then .error (.noSuchOption name)
    else readLetters argument.tail arguments

/-- Sorts at most `count` arguments. -/
def sortArguments : (count : Nat) → List Text → Except UsageError SortedArguments
  | 0, others => .ok { others }
  | _, [] => .ok {}
  | count + 1, argument :: arguments =>
    if argument = "--" then .ok { others := arguments }
    else if argument.head? = some '-' ∧ 1 < argument.length then do
      let (switches, arguments) ← readOption argument arguments
      let sorted ← sortArguments count arguments
      return switches.foldr (fun (s, value) a => a.withSwitch s value) sorted
    else do
      let sorted ← sortArguments count arguments
      return sorted.withOther argument

/-- What a command line asks for. -/
inductive Request
  | version
  | help
  | compile (input : Text) (output : Option Text) (options : Options) (verbose : Bool)

/-- Reads the width of excerpts. -/
def readWidth (value : Text) : Except UsageError { n : Nat // 0 < n } :=
  match Text.integer? value with
  | none => .error (.invalidWidth (value.quoted ++ " is not a valid integer range."))
  | some n =>
    if h : 0 < n.toNat then .ok ⟨n.toNat, h⟩
    else .error (.invalidWidth (Text.signedDecimal n ++ " is not in the range x>=1."))

/-- Takes the path of the output file, under which there must be no directory. -/
def readOutput (lookup : Text → Except PathFault Node) (path : Text) : Except UsageError Text :=
  match lookup path with
  | .ok .directory => .error (.invalidOutput ("File " ++ path.quoted ++ " is a directory."))
  | _ => .ok (Path.plain path)

/-- Takes the path of the input file, under which there must be a file. -/
def readInput (lookup : Text → Except PathFault Node) (path : Text) : Except UsageError Text :=
  match lookup path with
  | .error _ => .error (.invalidInput ("File " ++ path.quoted ++ " does not exist."))
  | .ok .directory => .error (.invalidInput ("File " ++ path.quoted ++ " is a directory."))
  | .ok (.file _) => .ok (Path.plain path)

namespace SortedArguments

/-- Checks the value of an option, of which the last one given counts. -/
def checkSwitch (lookup : Text → Except PathFault Node) (a : SortedArguments) (s : Switch) :
    Except UsageError Unit :=
  match s, a.value? s with
  | .width, some value => do
    let _ ← readWidth value
  | .output, some path => do
    let _ ← readOutput lookup path
  | _, _ => .ok ()

/-- What arguments ask for that do not ask for information only. -/
def compileRequest (lookup : Text → Except PathFault Node) (a : SortedArguments) :
    Except UsageError Request := do
  a.switches.forM fun (s, _) => checkSwitch lookup a s
  match a.others with
  | [] => throw .inputMissing
  | input :: extra =>
    let input ← readInput lookup input
    if !extra.isEmpty then throw (.extraArguments extra)
    let output ← (a.value? .output).mapM (readOutput lookup)
    let width ← (a.value? .width).mapM readWidth
    let width := width.getD ⟨Diagnostic.defaultWidth, by decide⟩
    let options : Options :=
      { name := input
        width := width.val
        width_pos := width.property
        eventCodes := !a.has .noEventCodes
        redeclaration := a.has .redeclaration }
    return .compile input output options (a.has .verbose)

/-- The paths among arguments, as given and in their plain form. -/
def paths (a : SortedArguments) : List Text :=
  let given := a.others ++ (a.value? .output).toList
  given ++ given.map Path.plain

end SortedArguments

/-- Sorts arguments into options and others. -/
def sort (arguments : List Text) : Except UsageError SortedArguments :=
  sortArguments arguments.length arguments

/-- What the arguments of the command line ask for. -/
def Request.ofArguments (lookup : Text → Except PathFault Node) (arguments : List Text) :
    Except UsageError Request := do
  let a ← sort arguments
  match a.switches.find? fun (s, _) => s = .version ∨ s = .help with
  | some (.version, _) => return .version
  | some _ => return .help
  | none => a.compileRequest lookup

end EventRules.CommandLine
