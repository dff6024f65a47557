/-
# Literals

A literal is first read by its outer form and then checked. So a number that does not fit its type
is reported as a bad value, and not as a text that starts no literal.
-/

import EventRules.Grammar.Token
import EventRules.Table

namespace EventRules

/-- A literal by its outer form: digits and suffix of an integer, and digits of a colour, are
unchecked. -/
inductive LiteralForm
  | bool (b : Bool)
  | integer (digitsAt : Cursor) (digits : Text) (suffixAt : Cursor) (suffix : Text)
  | string (t : Text)
  | colour (start : Cursor) (digits : Text)

namespace LiteralForm

/-- The number that the digits of an integer denote: hexadecimal after `0x`, otherwise decimal. -/
def number? : Text → Option Nat
  | '0' :: 'x' :: digits => Text.hex? digits
  | digits => Text.decimal? digits

/-- The bytes that pairs of hexadecimal digits denote. -/
def bytes? : Text → Option (List Nat)
  | [] => some []
  | [_] => none
  | a :: b :: digits => do
    let byte ← Text.hex? [a, b]
    let bytes ← bytes? digits
    return byte :: bytes

/-- Checks the suffix and the range of an integer, and the length and the digits of a colour. -/
def check : LiteralForm → Except Diagnostic Literal
  | bool b => .ok (.bool b)
  | string t => .ok (.string t)
  | integer digitsAt digits suffixAt suffix =>
    match Width.ofName? suffix with
    | none => .error (.expectedIn suffixAt suffix.length .type)
    | some width =>
      match number? digits with
      | none => .error (.expectedIn digitsAt digits.length .value)
      | some n =>
        if n ≤ width.maximum then .ok (.int width n)
        else .error (.expectedIn digitsAt digits.length .value)
  | colour start digits =>
    match (bytes? digits).bind Colour.ofComponents? with
    | some c => .ok (.colour c)
    | none => .error (.expectedIn start (digits.length + 1) .value)

end LiteralForm

namespace Parser

/-- The keyword `true` or `false`. -/
def booleanForm : Parser LiteralForm := do
  let c ← here
  if c.atKeyword "true" then
    keyword "true"
    return .bool true
  else
    keyword "false"
    return .bool false

/-- A run of digits, a tilde and the name of a type. -/
def integerForm (digits : CharClass) : Parser LiteralForm := do
  let digitsAt ← here
  let digits ← run1 digits
  symbol "~"
  let suffixAt ← here
  let suffix ← run1 .alphanumeric
  return .integer digitsAt digits suffixAt suffix

/-- Any text between double quotes. -/
def stringForm : Parser LiteralForm := do
  symbol "\""
  let t ← takeUntil "\""
  symbol "\""
  return .string t

/-- A hash and a run of hexadecimal digits. -/
def colourForm : Parser LiteralForm := do
  let start ← here
  symbol "#"
  let digits ← run1 .hexDigit
  return .colour start digits

/-- The forms of a literal. -/
def literalForms : List (Parser LiteralForm) :=
  [booleanForm, integerForm .hexDigit, integerForm .digit, stringForm, colourForm]

/-- The form of a literal; where there is none, a literal was expected. -/
def literalForm : Parser LiteralForm := fun c =>
  ((alt literalForms).run c).mapError fun d =>
    if d.isFatal then d else .expectedBecause c .literal d

/-- A literal. -/
def literal : Parser Literal := do
  let form ← literalForm
  ofExcept (form.check.mapError .diagnostic)

/-- The name of a constant, which stands for its literal, or else a literal. -/
def literalOrConstant (constants : Table Text Literal) : Parser Literal := fun c =>
  match (name.run c).outcome with
  | .error _ => literal.run c
  | .ok (word, c') =>
    match constants.get? word with
    | some l => pure (l, c')
    | none => literal.run c

/-- Where the grammar asks how operands are read, a table of constants says so. -/
instance : Coe (Table Text Literal) (Parser Literal) := ⟨literalOrConstant⟩

/-- The name of a state variable, which stands for its slot. -/
def stateVariable (slots : Table Text Nat) : Parser Nat := fun c =>
  match (name.run c).outcome with
  | .error e => .ofExcept (.error (e.map (.expectedBecause c .stateVariable)))
  | .ok (word, c') =>
    match slots.get? word with
    | some slot => pure (slot, c')
    | none => .fail (.expectedIn c word.length .stateVariable)

end Parser

/-- The diagnostic for a literal that is no argument for a parameter. -/
def Mismatch.diagnostic (m : Mismatch) (l : Literal) (p : ParameterType)
    (location : Option Cursor) : Diagnostic :=
  let problem :=
    match m with
    | .refused => .castNotAllowed l.typeName p.name
    | .badValue => .expected .value
  .finding { location := location, problem := problem }

/-- Converts a literal to an argument; a literal that is none is reported where it stands. -/
def ParameterType.cast (p : ParameterType) (l : Literal) (location : Option Cursor) :
    Except Failure p.Argument :=
  if p ∈ targets then (p.convert l).mapError fun m => m.diagnostic l p location
  else .error (.fault (.unsupportedType p))

/-- An operand, which `read` reads, that converts to an argument for a parameter. -/
def Parser.operand (read : Parser Literal) (p : ParameterType) : Parser p.Argument := do
  let c ← here
  let l ← read
  ofExcept (p.cast l (some c))

end EventRules
