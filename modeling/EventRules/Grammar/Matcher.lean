/-
# Matchers

A matcher is written after the keyword `match`. It is `event` or `producer` with a number, the word
`tick`, a block with an optional extractor and a filter, or `not`, `or` and `and` with matchers in
braces.

The forms are tried in the order of a table; since at most one of them can start at a given place,
the order shows in diagnostics only.
-/

import EventRules.Grammar.Item
import EventRules.Symbols

namespace EventRules

/-- The forms of a matcher. -/
inductive MatcherForm
  | event
  | producer
  | tick
  | block
  | negation
  | disjunction
  | conjunction
  deriving DecidableEq, Repr

namespace MatcherForm

/-- The forms in the order in which they are tried. -/
def all : List MatcherForm :=
  [event, producer, tick, block, negation, disjunction, conjunction]

end MatcherForm

/-- In how many levels matchers may be nested. It depends on the machine, but 120 levels are always
there. -/
class NestingLimit where
  levels : Nat
  le_levels : 120 ≤ levels

instance : NestingLimit := ⟨240, by decide⟩

/-- What the words of a statement stand for, and how its matchers are read: the reader of operands,
the slots of the state variables, and the order in which the forms of a matcher are tried. -/
structure Terms where
  operand : Parser Literal
  slots : Table Text Nat := .empty
  matchers : List MatcherForm := MatcherForm.all

/-- The terms that a table of constants gives. -/
instance : Coe (Table Text Literal) Terms :=
  ⟨fun constants => { operand := Parser.literalOrConstant constants }⟩

/-- The terms of a scope. -/
def Scope.terms (scope : Scope) : Terms where
  operand := Parser.literalOrConstant scope.constants
  slots := scope.slots

instance : Coe Scope Terms := ⟨Scope.terms⟩

namespace Parser

/-- A literal or constant that is an integer of 16 bits. -/
def u16Operand (read : Parser Literal) : Parser Nat :=
  operand read .u16

/-- The end of a clause. After a closing brace the semicolon may be left out. -/
def clauseTerminator : Parser Unit := fun c =>
  if c.previous? = some '}' then
    if c.skipSpace.peek = ";" then pure ((), c.skipSpace.advance 1) else pure ((), c)
  else terminator.run c

/-- A keyword and a number. -/
def numberForm (read : Parser Literal) (word : Text) (matcher : Nat → Matcher) :
    Parser Matcher := do
  keyword word
  committed do
    space
    let n ← u16Operand read
    return matcher n

/-- A filter in braces, after an extractor or alone. -/
def blockForm (read : Parser Literal) : Parser Matcher := do
  symbol "\x7b"
  committed do
    skipSpace
    let extractor ← optionalExtractor read
    skipSpace
    let filter ← filterCall read
    nextSymbol "\x7d"
    return .single extractor filter

/-- A keyword and one matcher in braces. -/
def unaryForm (inner : Parser Matcher) (word : Text) (build : Matcher → Matcher) :
    Parser Matcher := do
  keyword word
  committed do
    nextSymbol "\x7b"
    skipSpace
    let m ← inner
    nextSymbol "\x7d"
    return build m

/-- A keyword and two matchers in braces, with a comma between. -/
def binaryForm (inner : Parser Matcher) (word : Text) (build : Matcher → Matcher → Matcher) :
    Parser Matcher := do
  keyword word
  committed do
    nextSymbol "\x7b"
    skipSpace
    let left ← inner
    nextSymbol ","
    skipSpace
    let right ← inner
    nextSymbol "\x7d"
    return build left right

/-- A matcher of one form, where `inner` reads the matchers in it. -/
def matcherForm (read : Parser Literal) (inner : Parser Matcher) :
    MatcherForm → Parser Matcher
  | .event => numberForm read "event" .eventCode
  | .producer => numberForm read "producer" .producerAddress
  | .tick => do
    keyword "tick"
    return .eventCode EventCode.internalSystemTick
  | .block => blockForm read
  | .negation => unaryForm inner "not" .not
  | .disjunction => binaryForm inner "or" .or
  | .conjunction => binaryForm inner "and" .and

/-- A matcher whose forms are tried in the given order, in at most `levels` levels. -/
def matcherIn (read : Parser Literal) (forms : List MatcherForm) : Nat → Parser Matcher
  | 0 => do
    fail (.finding
      { location := some (← here), problem := .nestingTooDeep, severity := .fatal })
  | levels + 1 => alt (forms.map (matcherForm read (matcherIn read forms levels)))

variable [NestingLimit]

/-- A matcher. -/
def matcher (terms : Terms) : Parser Matcher :=
  matcherIn terms.operand terms.matchers NestingLimit.levels

/-- The keyword `match` and a matcher. -/
def matchClause (terms : Terms) : Parser Matcher := do
  keyword "match"
  committed do
    skipSpace
    matcher terms

/-- A condition after `if`, or none. -/
def condition (terms : Terms) : Parser (Option Matcher) := do
  match ← optional (nextKeyword "if") with
  | none => return none
  | some _ =>
    committed do
      space
      return some (← matchClause terms)

end Parser

end EventRules
