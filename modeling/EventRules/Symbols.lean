/-
# Symbol tables

What the declarations of a program have introduced so far: constants, state variables with their
slots and initial values, and peripherals. A state variable is also a constant, whose value is the
number of its slot.

A declaration of a name or an index that is taken is refused, unless redeclaration is allowed; then
it replaces the earlier one.
-/

import EventRules.Diagnostic.Basic
import EventRules.Note

namespace EventRules

/-- The code of an event on the bus. -/
structure EventCode where
  name : Text
  code : Nat
  deriving DecidableEq, Repr

namespace EventCode

/-- The code of the event that the device raises at every tick of its clock. -/
def internalSystemTick : Nat := 10

/-- The events of the bus. -/
def all : List EventCode :=
  [⟨"BOOTLOADER_HELLO_EVENT_CODE", 0⟩,
    ⟨"PROGRAMMER_HELLO_EVENT_CODE", 1⟩,
    ⟨"PROGRAMMER_START_FIRMWARE_UPGRADE_EVENT_CODE", 2⟩,
    ⟨"ACK_EVENT_CODE", 3⟩,
    ⟨"DATA_EVENT_CODE", 4⟩,
    ⟨"CONFIGURATOR_HELLO_EVENT_CODE", 5⟩,
    ⟨"BCM_CHANGE_BRIGHTNESS_EVENT_CODE", 6⟩,
    ⟨"BUTTON_PRESSED_EVENT_CODE", 7⟩,
    ⟨"BUTTON_RELEASED_EVENT_CODE", 8⟩,
    ⟨"PROGRAMMER_START_CONFIG_UPGRADE_EVENT_CODE", 9⟩,
    ⟨"INTERNAL_SYSTEM_TICK_EVENT_CODE", internalSystemTick⟩,
    ⟨"PROGRAMMER_SET_DEVICE_ADDRESS_EVENT_CODE", 11⟩,
    ⟨"MESSAGE_EVENT_CODE", 12⟩,
    ⟨"BCM_ANIMATE_BRIGHTNESS_EVENT_CODE", 13⟩,
    ⟨"RELAY_SET_VALUE_EVENT_CODE", 14⟩]

/-- The constants that stand for the events of the bus. -/
def constants : Table Text Literal :=
  .ofList (all.map fun e => (e.name, .int .u16 e.code))

end EventCode

/-- The names that a statement can refer to. -/
structure Scope where
  constants : Table Text Literal := .empty
  slots : Table Text Nat := .empty
  deriving DecidableEq

/-- What the declarations of a program have introduced so far. -/
structure Symbols extends Scope where
  initialState : Table Nat Value := .empty
  peripherals : Table Nat Peripheral := .empty
  redeclaration : Bool := false
  deriving DecidableEq

namespace Symbols

/-- The table with which a program starts: empty, or with the constants for event codes. -/
def initial (eventCodes redeclaration : Bool) : Symbols where
  constants := if eventCodes then EventCode.constants else .empty
  redeclaration := redeclaration

/-- Refuses to declare what is already declared, unless redeclaration is allowed. The refusal is
located at the `length` characters that name it. -/
def checkNew (s : Symbols) (taken : Bool) (location : Option Cursor) (length : Nat) :
    Except Diagnostic Unit :=
  if taken && !s.redeclaration then
    .error (.finding
      { location, problem := .duplicateName, length := some length, severity := .fatal })
  else .ok ()

/-- Introduces a constant. -/
def declareConstant (s : Symbols) (name : Text) (l : Literal) (location : Option Cursor) :
    Except Diagnostic Symbols := do
  s.checkNew (s.constants.contains name) location name.length
  return { s with constants := s.constants.insert name l }

/-- The slot that the next state variable gets. -/
def nextSlot (s : Symbols) : Nat :=
  s.initialState.size

/-- Introduces a state variable in the next slot, and gives that slot. -/
def declareState (s : Symbols) (name : Text) (v : Value) (location : Option Cursor) :
    Except Diagnostic (Nat × Symbols) := do
  s.checkNew (s.constants.contains name) location name.length
  let slot := s.nextSlot
  return (slot, { s with
    constants := s.constants.insert name (.int .u32 slot)
    slots := s.slots.insert name slot
    initialState := s.initialState.insert slot v })

/-- Introduces a peripheral under its index, which is written with `length` characters. -/
def declarePeripheral (s : Symbols) (index : Nat) (p : Peripheral) (location : Option Cursor)
    (length : Nat) : Except Diagnostic Symbols := do
  s.checkNew (s.peripherals.contains index) location length
  return { s with peripherals := s.peripherals.insert index p }

end Symbols

/-- A declaration, and where the name or the index that it introduces stands in the source. -/
inductive Declaration
  | constant (name : Text) (literal : Literal) (location : Option Cursor)
  | state (name : Text) (value : Value) (location : Option Cursor)
  | peripheral (index : Nat) (entry : Peripheral) (location : Option Cursor) (length : Nat)

/-- Takes in a declaration, with a note on it. -/
def Symbols.declare (s : Symbols) : Declaration → Except Diagnostic (Note × Symbols)
  | .constant name l location => do
    return (.constantDeclared name l, ← s.declareConstant name l location)
  | .state name v location => do
    let (slot, s) ← s.declareState name v location
    return (.stateDeclared name slot v, s)
  | .peripheral index p location length => do
    return (.peripheralDeclared index p, ← s.declarePeripheral index p location length)

end EventRules
