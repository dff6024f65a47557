/-
# Quoted text

How a text is shown inside a message: between single quotes, or between double quotes when it has
a single quote and no double one. The backslash, the quote in use and everything unprintable are
escaped.
-/

import EventRules.Text.Numeral
import EventRules.Text.Printable

namespace EventRules

namespace Text

/-- The quotation mark for a text: double only where that saves escaping. -/
def quoteMark (t : Text) : Char :=
  if t.contains '\'' && !t.contains '"' then '"' else '\''

/-- One character between quotation marks `mark`: shown as it is, or as a backslash and a letter,
or by the fewest of two, four or eight hexadecimal digits that hold its code point. -/
def escapeChar (mark c : Char) : Text :=
  if c = mark ∨ c = '\\' then ['\\', c]
  else if c = '\n' then "\\n"
  else if c = '\r' then "\\r"
  else if c = '\t' then "\\t"
  else if isPrintable c then [c]
  else if c.toNat < 0x100 then "\\x" ++ hexPadded 2 c.toNat
  else if c.toNat < 0x10000 then "\\u" ++ hexPadded 4 c.toNat
  else "\\U" ++ hexPadded 8 c.toNat

/-- A text as it is shown inside a message. -/
def quoted (t : Text) : Text :=
  let mark := quoteMark t
  mark :: t.flatMap (escapeChar mark) ++ [mark]

end Text

end EventRules
