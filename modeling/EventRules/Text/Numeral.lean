/-
# Numerals

Natural numbers are written in decimal without leading zeros, and in lower-case hexadecimal, either
bare or padded with zeros to a least number of digits. Reading takes the digits from left to right.
-/

import EventRules.Text.Basic

namespace EventRules

namespace Text

/-- A number in decimal, without leading zeros. -/
def decimal (n : Nat) : Text :=
  Nat.toDigits 10 n

/-- A number in lower-case hexadecimal, without leading zeros. -/
def hex (n : Nat) : Text :=
  Nat.toDigits 16 n

/-- A number in lower-case hexadecimal with at least `width` digits. -/
def hexPadded (width n : Nat) : Text :=
  (hex n).leftpad width '0'

/-- An integer in decimal, with a sign if it is negative. -/
def signedDecimal : Int → Text
  | .ofNat n => decimal n
  | .negSucc n => '-' :: decimal (n + 1)

/-- A hexadecimal digit, of either case. -/
def isHexDigit (c : Char) : Bool :=
  c.isDigit || ('a' ≤ c && c ≤ 'f') || ('A' ≤ c && c ≤ 'F')

/-- What a hexadecimal digit is worth. -/
def hexDigitValue (c : Char) : Nat :=
  if c.isDigit then c.toNat - '0'.toNat
  else if 'a' ≤ c then c.toNat - 'a'.toNat + 10
  else c.toNat - 'A'.toNat + 10

/-- The number that digits of the given base denote, the most significant first. -/
def ofDigits (base : Nat) (digits : Text) : Nat :=
  digits.foldl (fun n c => n * base + hexDigitValue c) 0

/-- The number that a non-empty run of decimal digits denotes. -/
def decimal? (t : Text) : Option Nat :=
  if t ≠ [] ∧ t.all Char.isDigit then some (ofDigits 10 t) else none

/-- The number that a non-empty run of hexadecimal digits denotes. -/
def hex? (t : Text) : Option Nat :=
  if t ≠ [] ∧ t.all isHexDigit then some (ofDigits 16 t) else none

end Text

end EventRules
