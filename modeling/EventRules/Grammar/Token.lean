/-
# Tokens

The smallest pieces of a program: runs of characters of one class, names, keywords, single marks,
and lists of elements between marks. Each is read as far as it goes, and a failure is located where
the piece should have started.
-/

import EventRules.Grammar.Parser

namespace EventRules

/-- A character that separates words: space, tab, carriage return or line feed. -/
def isSpace (c : Char) : Bool :=
  c = ' ' || c = '\t' || c = '\r' || c = '\n'

/-- A character that a name may start with: an ASCII letter or an underscore. -/
def isNameStart (c : Char) : Bool :=
  c.isAlpha || c = '_'

/-- A character that a name may go on with: an ASCII letter or digit, or an underscore. -/
def isNameChar (c : Char) : Bool :=
  c.isAlphanum || c = '_'

/-- The classes of characters that are read in runs. The digits of a number are read generously,
with the mark of hexadecimal numbers or with a sign; whether they make up a number is looked at
when the literal is complete. -/
inductive CharClass
  | letter
  | alphanumeric
  | hexDigit
  | digit
  | blank
  deriving DecidableEq, Repr

namespace CharClass

/-- The characters of a class. -/
def contains : CharClass → Char → Bool
  | letter => Char.isAlpha
  | alphanumeric => Char.isAlphanum
  | hexDigit => fun c => Text.isHexDigit c || c = 'x'
  | digit => fun c => c.isDigit || c = '-'
  | blank => isSpace

/-- What is missing where a class is expected. -/
def expectation : CharClass → Expectation
  | letter => .letter
  | alphanumeric => .alphanumeric
  | hexDigit => .hexDigit
  | digit => .digit
  | blank => .blank

end CharClass

/-- The cursor after the separating characters at a cursor. -/
def Cursor.skipSpace (c : Cursor) : Cursor :=
  c.advance (c.rest.takeWhile isSpace).length

/-- The text ahead starts with a word that ends where a name would end. -/
def Cursor.atKeyword (c : Cursor) (word : Text) : Bool :=
  c.startsWith word && !(c.ahead? word.length).any isNameChar

namespace Parser

variable {α : Type}

/-- The longest run of characters of a class, which may be empty. -/
def run0 (k : CharClass) : Parser Text := do
  let c ← here
  take (c.rest.takeWhile k.contains).length

/-- The longest run of characters of a class, which must not be empty. -/
def run1 (k : CharClass) : Parser Text := do
  let c ← here
  let run := c.rest.takeWhile k.contains
  if run.isEmpty then fail (.expected c k.expectation) else take run.length

/-- Passes over separating characters, if there are any. -/
def skipSpace : Parser Unit := do
  let _ ← run0 .blank

/-- Passes over separating characters, of which there must be one. -/
def space : Parser Unit := do
  let _ ← run1 .blank

/-- The text before the next occurrence of `mark`. -/
def takeUntil (mark : Text) : Parser Text := do
  let c ← here
  match if c.inSource then Text.before? mark c.rest else none with
  | some t => take t.length
  | none => fail (.finding { location := some c, problem := .internal "take_until" })

/-- A name: a letter or an underscore, and then letters, digits and underscores. -/
def name : Parser Text := do
  let c ← here
  if (c.ahead? 0).any isNameStart then take (c.rest.takeWhile isNameChar).length
  else fail (.expectedBecause c .name (.expected c .letter))

/-- A keyword, which ends where a name would end. -/
def keyword (word : Text) : Parser Unit := do
  let c ← here
  if c.atKeyword word then
    let _ ← take word.length
  else fail (.expected c (.keyword word))

/-- A mark of one character. The empty mark is found at the end of the source only. -/
def symbol (mark : Text) : Parser Unit := do
  let c ← here
  if c.peek = mark then
    let _ ← take 1
  else fail (.expected c (.symbol mark))

/-- The semicolon that ends a statement. If it is missing, that is reported right after the
statement and not after the space that follows. -/
def terminator : Parser Unit := fun c =>
  if c.skipSpace.peek = ";" then pure ((), c.skipSpace.advance 1)
  else .fail (.expected c (.symbol ";"))

/-- A keyword after space. -/
def nextKeyword (word : Text) : Parser Unit := do
  space
  keyword word

/-- A mark after space, if there is any. -/
def nextSymbol (mark : Text) : Parser Unit := do
  skipSpace
  symbol mark

/-- The first of the words that stands here. -/
def keywordChoice (words : List Text) : Parser Text := do
  let c ← here
  match words.find? c.atKeyword with
  | some word => do
    keyword word
    return word
  | none => fail (.oneOf (words.map fun word => .expected c (.keyword word)) .recoverable)

/-- The marks around and between the elements of a list. -/
structure ListMarks where
  opening : Text := "("
  closing : Text := ")"
  separator : Text := ","
  deriving DecidableEq, Repr

/-- The further elements of a list, each after a separator. -/
def moreElements (separator : Text) (element : Parser α) : Parser (List α) := fun c =>
  if c.skipSpace.peek = separator then do
    let (a, c') ← element.run (c.skipSpace.advance 1).skipSpace
    if _h : c'.remaining < c.remaining then
      let (as, last) ← moreElements separator element c'
      return (a :: as, last)
    else return ([a], c')
  else pure ([], c)
  termination_by c => c.remaining

/-- A list between marks, with space allowed around its elements. Unless the list closes at once,
every element has to be there, and the failure to read one is the failure of the list. -/
def list (marks : ListMarks) (element : Parser α) : Parser (List α) := do
  symbol marks.opening
  skipSpace
  let c ← here
  let elements ←
    if c.peek = marks.closing then pure []
    else do
      let first ← element
      let rest ← moreElements marks.separator element
      pure (first :: rest)
  nextSymbol marks.closing
  return elements

end Parser

end EventRules
