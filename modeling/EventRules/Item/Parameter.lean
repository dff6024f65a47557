/-
# Parameters

A parameter of an item has a type, which fixes what an argument for it is and how a literal becomes
one. Conversions are exact: an integer is neither widened nor narrowed.
-/

import EventRules.Cron.Notation
import EventRules.Value

namespace EventRules

/-- The type of a parameter. The address of a device is an integer of 16 bits that is shown in
hexadecimal. -/
inductive ParameterType
  | u8
  | u16
  | address
  | u32
  | bool
  | value
  | messageValue
  | bcmValue
  | relayValue
  | cron
  deriving DecidableEq, Repr

/-- Why a literal is no argument for a parameter. -/
inductive Mismatch
  | refused
  | badValue
  deriving DecidableEq, Repr

namespace ParameterType

/-- The types of parameters that literals are converted to. -/
def targets : List ParameterType :=
  [u8, u16, address, u32, bool, value, messageValue, bcmValue, relayValue, cron]

/-- The name of a parameter type in messages. -/
def name : ParameterType → Text
  | u8 => "u8"
  | u16 | address => "u16"
  | u32 => "u32"
  | bool => "bool"
  | value => "value"
  | messageValue => "message value"
  | bcmValue => "bcm value"
  | relayValue => "relay value"
  | cron => "cron expression"

/-- The arguments for a parameter of the given type. -/
@[reducible]
def Argument : ParameterType → Type
  | u8 | u16 | address | u32 => Nat
  | bool => Bool
  | value => Value
  | messageValue => MessageValue
  | bcmValue => BcmValue
  | relayValue => RelayValue
  | cron => Cron

instance : (p : ParameterType) → DecidableEq p.Argument
  | u8 | u16 | address | u32 => inferInstanceAs (DecidableEq Nat)
  | bool => inferInstanceAs (DecidableEq Bool)
  | value => inferInstanceAs (DecidableEq Value)
  | messageValue => inferInstanceAs (DecidableEq MessageValue)
  | bcmValue => inferInstanceAs (DecidableEq BcmValue)
  | relayValue => inferInstanceAs (DecidableEq RelayValue)
  | cron => inferInstanceAs (DecidableEq Cron)

/-- The text of an argument. -/
def argumentText : (p : ParameterType) → p.Argument → Text
  | u8, n | u16, n | u32, n => Text.decimal n
  | address, n => "0x" ++ Text.hexPadded 4 n
  | bool, b => Text.ofBool b
  | value, v => v.text
  | messageValue, v => v.text
  | bcmValue, v => v.text
  | relayValue, v => v.text
  | cron, c => c.text

/-- Converts a literal to an argument. A string stands for a state of a relay pair or for a cron
expression, and is a bad value where it spells none; every other literal converts by its type. -/
def convert : (p : ParameterType) → Literal → Except Mismatch p.Argument
  | u8, .int .u8 n => .ok n
  | u16, .int .u16 n => .ok n
  | address, .int .u16 n => .ok n
  | u32, .int .u32 n => .ok n
  | bool, .bool b => .ok b
  | value, .int width n => .ok (.int width n)
  | value, .bool b => .ok (.bool b)
  | value, .colour c => .ok (.colour c)
  | messageValue, .int width n => .ok (.int width n)
  | messageValue, .bool b => .ok (.bool b)
  | bcmValue, .int .u8 n => .ok (.single n)
  | bcmValue, .colour c => .ok (.colour c)
  | relayValue, .bool b => .ok (.single b)
  | relayValue, .string t =>
    match RelayPair.ofWord? t with
    | some state => .ok (.pair state)
    | none => .error .badValue
  | cron, .string t =>
    match Cron.read t with
    | .ok c => .ok c
    | .error _ => .error .badValue
  | _, _ => .error .refused

end ParameterType

/-- Arguments for parameters of the given types, one for each. -/
inductive Arguments : List ParameterType → Type
  | nil : Arguments []
  | cons {p : ParameterType} {ps : List ParameterType} (argument : p.Argument)
      (rest : Arguments ps) : Arguments (p :: ps)

namespace Arguments

/-- The texts of arguments, in order. -/
def texts : {ps : List ParameterType} → Arguments ps → List Text
  | [], .nil => []
  | p :: _, .cons argument rest => p.argumentText argument :: rest.texts

instance decEq : (ps : List ParameterType) → DecidableEq (Arguments ps)
  | [], .nil, .nil => .isTrue rfl
  | _ :: ps, .cons a as, .cons b bs =>
    if h : a = b then
      match decEq ps as bs with
      | .isTrue hs => .isTrue (h ▸ hs ▸ rfl)
      | .isFalse hs => .isFalse fun e => hs (by cases e; rfl)
    else .isFalse fun e => h (by cases e; rfl)

end Arguments

end EventRules
