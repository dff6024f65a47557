/-
# UTF-8

Decoding of octets. A sequence is refused at its first octet that cannot be right, and the refusal
says which octets are at fault: one that starts no character, the octets before a wrong
continuation, or all that is left when the text ends inside a character.
-/

import EventRules.Text.Numeral

namespace EventRules

namespace Utf8

/-- What is wrong with a sequence of octets. -/
inductive Fault
  | start
  | continuation
  | truncation
  deriving DecidableEq, Repr

/-- Why a sequence of octets is no UTF-8: the fault, the first octet it concerns with its position,
and how many octets it concerns. -/
structure Refusal where
  fault : Fault
  octet : UInt8
  position : Nat
  count : Nat
  deriving DecidableEq, Repr

/-- The continuation octets a first octet calls for, and the legal range of the first of them. The
narrower ranges keep out overlong forms, surrogates and code points above U+10FFFF. -/
def continuations? (first : Nat) : Option (Nat × Nat × Nat) :=
  if first < 0x80 then some (0, 0x80, 0xbf)
  else if first < 0xc2 then none
  else if first < 0xe0 then some (1, 0x80, 0xbf)
  else if first = 0xe0 then some (2, 0xa0, 0xbf)
  else if first = 0xed then some (2, 0x80, 0x9f)
  else if first < 0xf0 then some (2, 0x80, 0xbf)
  else if first = 0xf0 then some (3, 0x90, 0xbf)
  else if first < 0xf4 then some (3, 0x80, 0xbf)
  else if first = 0xf4 then some (3, 0x80, 0x8f)
  else none

/-- The bits of the code point that the first of `count + 1` octets holds. -/
def leadBits (count first : Nat) : Nat :=
  match count with
  | 0 => first
  | 1 => first % 0x20
  | 2 => first % 0x10
  | _ => first % 0x08

/-- Reads the continuation octets of a character whose first octet and `seen` further ones are
already in `code`: `owed` more are due, the next in the range from `lo` to `hi`. -/
def readTail (first : UInt8) (position : Nat) :
    (owed seen lo hi code : Nat) → List UInt8 → Except Refusal Nat
  | 0, _, _, _, code, _ => .ok code
  | _ + 1, seen, _, _, _, [] => .error ⟨.truncation, first, position, seen + 1⟩
  | owed + 1, seen, lo, hi, code, b :: rest =>
    if lo ≤ b.toNat ∧ b.toNat ≤ hi then
      readTail first position owed (seen + 1) 0x80 0xbf (code * 0x40 + b.toNat % 0x40) rest
    else .error ⟨.continuation, first, position, seen + 1⟩

/-- Decodes octets that start at the given position. -/
def decodeFrom (position : Nat) : List UInt8 → Except Refusal Text
  | [] => .ok []
  | b :: rest =>
    match continuations? b.toNat with
    | none => .error ⟨.start, b, position, 1⟩
    | some (count, lo, hi) => do
      let code ← readTail b position count 0 lo hi (leadBits count b.toNat) rest
      let text ← decodeFrom (position + count + 1) (rest.drop count)
      return Char.ofNat code :: text
  termination_by octets => octets.length
  decreasing_by simp only [List.length_drop, List.length_cons]; omega

/-- Decodes UTF-8. A leading byte order mark is a character like any other. -/
def decode (octets : List UInt8) : Except Refusal Text :=
  decodeFrom 0 octets

/-- The description of a fault. -/
def Fault.message : Fault → Text
  | .start => "invalid start byte"
  | .continuation => "invalid continuation byte"
  | .truncation => "unexpected end of data"

/-- The description of a refusal: a single octet is shown, several are located. -/
def Refusal.message (r : Refusal) : Text :=
  "'utf-8' codec can't decode " ++
    (if r.count = 1 then
      "byte 0x" ++ Text.hexPadded 2 r.octet.toNat ++ " in position " ++ Text.decimal r.position
    else
      "bytes in position " ++ Text.decimal r.position ++ "-" ++
        Text.decimal (r.position + r.count - 1)) ++
    ": " ++ r.fault.message

end Utf8

namespace Text

/-- The number of octets in which a text is encoded. -/
def octetCount (t : Text) : Nat :=
  t.foldr (fun c n => c.utf8Size + n) 0

/-- Every line end, whether carriage return, line feed or both, as a single line feed. -/
def unifyNewlines : Text → Text
  | [] => []
  | '\r' :: '\n' :: t => '\n' :: unifyNewlines t
  | c :: t => (if c = '\r' then '\n' else c) :: unifyNewlines t

end Text

end EventRules
