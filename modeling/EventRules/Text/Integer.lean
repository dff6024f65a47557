/-
# Integers in running text

An integer as a person may type it: at most 4300 decimal digits of any script, single underscores
between them, a sign before and white space around.
-/

import EventRules.Text.Blank
import EventRules.Text.Numeral

namespace EventRules

namespace Text

/-- The zeros of the scripts of Unicode. In each script the ten digits follow one another. -/
def scriptZeros : List Nat := [
  0x30, 0x660, 0x6f0, 0x7c0, 0x966, 0x9e6, 0xa66, 0xae6, 0xb66, 0xbe6, 0xc66, 0xce6, 0xd66,
  0xde6, 0xe50, 0xed0, 0xf20, 0x1040, 0x1090, 0x17e0, 0x1810, 0x1946, 0x19d0, 0x1a80, 0x1a90,
  0x1b50, 0x1bb0, 0x1c40, 0x1c50, 0xa620, 0xa8d0, 0xa900, 0xa9d0, 0xa9f0, 0xaa50, 0xabf0,
  0xff10, 0x104a0, 0x10d30, 0x11066, 0x110f0, 0x11136, 0x111d0, 0x112f0, 0x11450, 0x114d0,
  0x11650, 0x116c0, 0x11730, 0x118e0, 0x11950, 0x11c50, 0x11d50, 0x11da0, 0x16a60, 0x16ac0,
  0x16b50, 0x1d7ce, 0x1d7d8, 0x1d7e2, 0x1d7ec, 0x1d7f6, 0x1e140, 0x1e2f0, 0x1e950, 0x1fbf0]

/-- What a decimal digit of any script is worth. -/
def digitValue? (c : Char) : Option Nat :=
  (scriptZeros.find? fun z => z ≤ c.toNat && c.toNat < z + 10).map (c.toNat - ·)

/-- Reads the digits that follow a digit, where `n` is the number so far. An underscore must have a
digit on either side. -/
def digitsAfter (n : Nat) : Text → Option Nat
  | [] => some n
  | '_' :: c :: t => do digitsAfter (n * 10 + (← digitValue? c)) t
  | c :: t => do digitsAfter (n * 10 + (← digitValue? c)) t

/-- The number that digits denote, of which there must be one. -/
def natural? : Text → Option Nat
  | [] => none
  | c :: t => do digitsAfter (← digitValue? c) t

/-- White space that may stand around an integer. The four separators of files, groups, records and
units, U+001C to U+001F, may not. -/
def isMargin (c : Char) : Bool :=
  isBlank c && !(0x1c ≤ c.toNat && c.toNat ≤ 0x1f)

/-- A text without the white space around it. -/
def trimMargins (t : Text) : Text :=
  ((t.dropWhile isMargin).reverse.dropWhile isMargin).reverse

/-- The greatest number of digits in an integer. -/
def digitLimit : Nat := 4300

/-- The integer that a text denotes. -/
def integer? (t : Text) : Option Int :=
  if digitLimit < t.countP fun c => (digitValue? c).isSome then none
  else
    match t.trimMargins with
    | '-' :: digits => (natural? digits).map fun n => -n
    | '+' :: digits => (natural? digits).map fun n => n
    | digits => (natural? digits).map fun n => n

end Text

end EventRules
