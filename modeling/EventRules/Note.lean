/-
# Notes

What is worth telling about a compilation while it goes on. A note belongs to the part of the
compiler that made it. Notes made before a failure remain.
-/

import EventRules.Config
import EventRules.Source.Cursor

namespace EventRules

/-- The parts of the compiler that make notes. -/
inductive Channel
  | items
  | declarations
  | rules
  | symbols
  | compiler
  deriving DecidableEq, Repr

/-- The name under which a part of the compiler makes its notes. -/
def Channel.name : Channel → Text
  | items => "ross_dsl.items"
  | declarations => "ross_dsl.statements.declarations"
  | rules => "ross_dsl.statements.rules"
  | symbols => "ross_dsl.symbols"
  | compiler => "ross_dsl.compiler"

/-- How much attention a note deserves. -/
inductive Level
  | debug
  | info
  deriving DecidableEq, Repr

/-- The word for a level. -/
def Level.name : Level → Text
  | debug => "DEBUG"
  | info => "INFO"

/-- Something worth telling about a compilation. -/
inductive Note
  | itemRead (name : Text) (location : Location)
  | constantRead (name : Text) (literal : Literal)
  | stateRead (name : Text) (value : Value)
  | peripheralRead (index : Nat) (peripheral : Peripheral)
  | sendRead (event address receiver : Nat)
  | setRead (slot : Nat) (value : Value) (event address : Nat)
  | blockRead (matchers creators : Nat)
  | constantDeclared (name : Text) (literal : Literal)
  | stateDeclared (name : Text) (slot : Nat) (value : Value)
  | peripheralDeclared (index : Nat) (peripheral : Peripheral)
  | processorAdded (number : Nat)
  | compiled (name : Text) (slots processors peripherals : Nat)
  | failed (name : Text) (report : Text)
  deriving DecidableEq

namespace Note

/-- The part of the compiler that makes a note. -/
def channel : Note → Channel
  | itemRead .. => .items
  | constantRead .. | stateRead .. | peripheralRead .. => .declarations
  | sendRead .. | setRead .. | blockRead .. => .rules
  | constantDeclared .. | stateDeclared .. | peripheralDeclared .. => .symbols
  | processorAdded .. | compiled .. | failed .. => .compiler

/-- The level of a note: only the completion of a program is more than a detail. -/
def level : Note → Level
  | compiled .. => .info
  | _ => .debug

/-- What a note says. -/
def message : Note → Text
  | itemRead name location => "Item " ++ name ++ " at " ++ location.text
  | constantRead name literal => "const " ++ name ++ " = " ++ literal.text
  | stateRead name value => "let " ++ name ++ " = " ++ value.text
  | peripheralRead index peripheral =>
    "peripheral " ++ Text.decimal index ++ ": " ++ peripheral.text
  | sendRead event address receiver =>
    "send 0x" ++ Text.hexPadded 4 event ++ " from 0x" ++ Text.hexPadded 4 address ++ " to 0x" ++
      Text.hexPadded 4 receiver
  | setRead slot value event address =>
    "set slot " ++ Text.decimal slot ++ " to " ++ value.text ++ " on 0x" ++
      Text.hexPadded 4 event ++ " from 0x" ++ Text.hexPadded 4 address
  | blockRead matchers creators =>
    "do block with " ++ Text.decimal matchers ++ " matchers, " ++ Text.decimal creators ++
      " creators"
  | constantDeclared name literal => "Constant " ++ name ++ " = " ++ literal.text
  | stateDeclared name slot value =>
    "State " ++ name ++ " -> slot " ++ Text.decimal slot ++ ", initial " ++ value.text
  | peripheralDeclared index peripheral =>
    "Peripheral " ++ Text.decimal index ++ ": " ++ peripheral.text
  | processorAdded number => "Event processor #" ++ Text.decimal number
  | compiled name slots processors peripherals =>
    "Compiled " ++ name ++ ": " ++ Text.decimal slots ++ " state slots, " ++
      Text.decimal processors ++ " event processors, " ++ Text.decimal peripherals ++
      " peripherals"
  | failed name report => "Compilation of " ++ name ++ " failed: " ++ report

/-- A note with the name of the part that made it. -/
def line (n : Note) : Text :=
  n.channel.name ++ ": " ++ n.message

end Note

end EventRules
