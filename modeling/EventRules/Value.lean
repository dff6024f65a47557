/-
# Values

The data that a program mentions and that a configuration carries: integers of three widths, truth
values, colours, brightness levels and relay states. A literal is a datum as it is written in a
program; it alone can be a string.

An integer is not tied to its width by its type. Reading a program only ever yields integers that
fit, which is a fact about reading.
-/

import EventRules.Text.Numeral

namespace EventRules

/-- The width of an unsigned integer. -/
inductive Width
  | u8
  | u16
  | u32
  deriving DecidableEq, Repr

namespace Width

/-- The widths, narrowest first. -/
def all : List Width := [u8, u16, u32]

/-- The number of bits. -/
def bits : Width → Nat
  | u8 => 8
  | u16 => 16
  | u32 => 32

/-- The largest integer of a width. -/
def maximum (w : Width) : Nat :=
  Nat.pow 2 w.bits - 1

/-- The name of the type of integers of a width, which is also the suffix of their literals. -/
def name : Width → Text
  | u8 => "u8"
  | u16 => "u16"
  | u32 => "u32"

/-- The width of a given name. -/
def ofName? (t : Text) : Option Width :=
  all.find? (·.name = t)

end Width

/-- The text of an integer with all the hexadecimal digits of its width. -/
def Width.padded (w : Width) (n : Nat) : Text :=
  "0x" ++ Text.hexPadded (w.bits / 4) n ++ "~" ++ w.name

/-- The text of a truth value. -/
def Text.ofBool (b : Bool) : Text :=
  if b then "true" else "false"

/-- A colour with a brightness. Each component is one byte. -/
inductive Colour
  | rgb (red green blue brightness : Nat)
  | rgbw (red green blue white brightness : Nat)
  deriving DecidableEq, Repr

namespace Colour

/-- The components in the order in which they are written. -/
def components : Colour → List Nat
  | rgb red green blue brightness => [red, green, blue, brightness]
  | rgbw red green blue white brightness => [red, green, blue, white, brightness]

/-- The colour with the given components: four, or five with a white channel. -/
def ofComponents? : List Nat → Option Colour
  | [red, green, blue, brightness] => some (rgb red green blue brightness)
  | [red, green, blue, white, brightness] => some (rgbw red green blue white brightness)
  | _ => none

/-- The name of the type of a colour. -/
def typeName : Colour → Text
  | rgb .. => "rgb"
  | rgbw .. => "rgbw"

/-- A colour as two hexadecimal digits for each component. -/
def text (c : Colour) : Text :=
  "#" ++ c.components.flatMap (Text.hexPadded 2)

@[simp]
theorem ofComponents?_components (c : Colour) : ofComponents? c.components = some c := by
  cases c <;> rfl

end Colour

/-- A datum as it is written in a program. -/
inductive Literal
  | int (width : Width) (n : Nat)
  | bool (b : Bool)
  | string (t : Text)
  | colour (c : Colour)
  deriving DecidableEq, Repr

namespace Literal

/-- The name of the type of a literal. -/
def typeName : Literal → Text
  | int width _ => width.name
  | bool _ => "bool"
  | string _ => "string"
  | colour c => c.typeName

/-- The text of a literal, integers in hexadecimal without leading zeros. -/
def text : Literal → Text
  | int width n => "0x" ++ Text.hex n ++ "~" ++ width.name
  | bool b => Text.ofBool b
  | string t => "\"" ++ t ++ "\""
  | colour c => c.text

end Literal

/-- A datum that a state slot can hold or an event can be compared with. -/
inductive Value
  | int (width : Width) (n : Nat)
  | bool (b : Bool)
  | colour (c : Colour)
  deriving DecidableEq, Repr

namespace Value

/-- The name of the type of a value. -/
def typeName : Value → Text
  | int width _ => width.name
  | bool _ => "bool"
  | colour c => c.typeName

/-- The text of a value, integers with all the digits of their width. -/
def text : Value → Text
  | int width n => width.padded n
  | bool b => Text.ofBool b
  | colour c => c.text

end Value

/-- The payload of a message. -/
inductive MessageValue
  | int (width : Width) (n : Nat)
  | bool (b : Bool)
  deriving DecidableEq, Repr

namespace MessageValue

/-- The name of the type of a payload. -/
def typeName : MessageValue → Text
  | int width _ => width.name
  | bool _ => "bool"

/-- The text of a payload, integers with all the digits of their width. -/
def text : MessageValue → Text
  | int width n => width.padded n
  | bool b => Text.ofBool b

end MessageValue

/-- The brightness of a dimmed output: one channel, or a group of coloured channels. -/
inductive BcmValue
  | single (brightness : Nat)
  | colour (c : Colour)
  deriving DecidableEq, Repr

/-- The text of a brightness. -/
def BcmValue.text : BcmValue → Text
  | single brightness => Width.u8.padded brightness
  | colour c => c.text

/-- The state of two relays of which at most one is on. -/
inductive RelayPair
  | first
  | second
  | none
  deriving DecidableEq, Repr

namespace RelayPair

/-- The states of a pair. -/
def all : List RelayPair := [first, second, none]

/-- The word for a state of a pair. -/
def word : RelayPair → Text
  | first => "first"
  | second => "second"
  | none => "none"

/-- The state that a word stands for. -/
def ofWord? (t : Text) : Option RelayPair :=
  all.find? (·.word = t)

end RelayPair

/-- The state of a relay, or of a pair of relays. -/
inductive RelayValue
  | single (on : Bool)
  | pair (state : RelayPair)
  deriving DecidableEq, Repr

/-- The text of a relay state. -/
def RelayValue.text : RelayValue → Text
  | single on => Text.ofBool on
  | pair state => "\"" ++ state.word ++ "\""

end EventRules
