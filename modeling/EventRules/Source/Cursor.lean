/-
# Cursors

A cursor is a position in a source text. It keeps the text that lies ahead of it, so that reading
on does not walk through the source again, and it still knows the whole source, from which the
line, the column and the character behind it are told.

A cursor may stand beyond the end of its source; moving it brings it back to the end.
-/

import EventRules.Text.Numeral

namespace EventRules

/-- A program text and the name it goes by in messages. -/
structure Source where
  name : Text
  text : Text
  deriving DecidableEq, Repr

/-- A place in a named text: line and column count from one, and a line ends at a line feed. -/
structure Location where
  name : Text
  line : Nat
  column : Nat
  deriving DecidableEq, Repr

/-- A location as name, line and column with colons between. -/
def Location.text (l : Location) : Text :=
  l.name ++ ":" ++ Text.decimal l.line ++ ":" ++ Text.decimal l.column

/-- A position in a source text, with the text ahead of it. -/
structure Cursor where
  source : Source
  offset : Nat
  rest : Text
  rest_eq : rest = source.text.drop offset
  deriving DecidableEq, Repr

/-- The cursor at an offset into a source. -/
def Source.cursor (source : Source) (offset : Nat) : Cursor where
  source := source
  offset := offset
  rest := source.text.drop offset
  rest_eq := rfl

/-- The cursor at the start of a source. -/
def Source.start (source : Source) : Cursor :=
  source.cursor 0

namespace Cursor

/-- A cursor is given by its source and its offset. -/
@[ext]
theorem ext_offset {c d : Cursor} (hsource : c.source = d.source) (hoffset : c.offset = d.offset) :
    c = d := by
  obtain ⟨source, offset, rest, hrest⟩ := c
  obtain ⟨source', offset', rest', hrest'⟩ := d
  cases hsource
  cases hoffset
  subst hrest hrest'
  rfl

/-- Nothing lies ahead. -/
def atEnd (c : Cursor) : Bool :=
  c.rest.isEmpty

/-- The next character as a text, which is empty when nothing lies ahead. -/
def peek (c : Cursor) : Text :=
  c.rest.take 1

/-- The character `count` places further on. -/
def ahead? (c : Cursor) (count : Nat) : Option Char :=
  (c.rest.drop count).head?

/-- The position lies within the source or at its end. -/
def inSource (c : Cursor) : Bool :=
  !c.rest.isEmpty || c.offset ≤ c.source.text.length

/-- The text ahead starts with `t`. Beyond the end of the source nothing starts, not even the empty
text. -/
def startsWith (c : Cursor) (t : Text) : Bool :=
  t.isPrefixOf c.rest && (!t.isEmpty || c.inSource)

/-- The character just behind the cursor. -/
def previous? (c : Cursor) : Option Char :=
  if c.offset = 0 then none else c.source.text[c.offset - 1]?

/-- The source text from this cursor up to an offset. -/
def textUntil (c : Cursor) (offset : Nat) : Text :=
  c.rest.take (offset - c.offset)

/-- Moves `count` characters on, but not past the end of the source. -/
def advance (c : Cursor) (count : Nat) : Cursor where
  source := c.source
  offset :=
    if c.rest.isEmpty then min (c.offset + count) c.source.text.length
    else c.offset + (c.rest.take count).length
  rest := c.rest.drop count
  rest_eq := by
    rw [c.rest_eq, List.drop_drop]
    split
    · next h =>
      rw [List.isEmpty_iff, List.drop_eq_nil_iff] at h
      rw [List.drop_eq_nil_iff.2 (by omega), List.drop_eq_nil_iff.2 (by omega)]
    · rw [List.length_take, List.length_drop]
      rcases Nat.le_total count (c.source.text.length - c.offset) with h | h
      · rw [Nat.min_eq_left h]
      · rw [Nat.min_eq_right h, List.drop_eq_nil_iff.2 (by omega),
          List.drop_eq_nil_iff.2 (by omega)]

/-- The number of characters between the cursor and the end of its source, on either side. -/
def remaining (c : Cursor) : Nat :=
  c.rest.length + (c.offset - c.source.text.length)

/-- The line and the column of the cursor. -/
def location (c : Cursor) : Location :=
  let behind := c.source.text.take c.offset
  let lineStart := behind.length - (behind.reverse.takeWhile (· ≠ '\n')).length
  { name := c.source.name
    line := behind.count '\n' + 1
    column := c.offset - lineStart + 1 }

@[simp]
theorem source_advance (c : Cursor) (count : Nat) : (c.advance count).source = c.source := rfl

@[simp]
theorem rest_advance (c : Cursor) (count : Nat) : (c.advance count).rest = c.rest.drop count := rfl

/-- Moving adds to the offset, up to the length of the source. -/
theorem offset_advance (c : Cursor) (count : Nat) :
    (c.advance count).offset = min (c.offset + count) c.source.text.length := by
  have hlength : c.rest.length = c.source.text.length - c.offset := by
    rw [c.rest_eq, List.length_drop]
  change (if c.rest.isEmpty then _ else _) = _
  split
  · rfl
  · next h =>
    have : c.rest.length ≠ 0 := fun e => h (by simp [List.length_eq_zero_iff.1 e])
    rw [List.length_take]
    omega

end Cursor

end EventRules
