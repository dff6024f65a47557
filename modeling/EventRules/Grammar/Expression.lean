/-
# Parser expressions

Parsers as data: an expression is built from the tokens and the combinators of the grammar, and its
meaning is a parser that reads plain data.
-/

import EventRules.Grammar.Literal

namespace EventRules

/-- What a parser expression reads. -/
inductive Datum
  | nothing
  | text (t : Text)
  | literal (l : Literal)
  | list (elements : List Datum)

/-- An expression that denotes a parser. -/
inductive ParserExpr
  | run0 (k : CharClass)
  | run1 (k : CharClass)
  | skipSpace
  | space
  | name
  | terminator
  | keyword (word : Text)
  | symbol (mark : Text)
  | takeUntil (mark : Text)
  | literal
  | empty
  | seq (parts : List ParserExpr)
  | alt (alternatives : List ParserExpr)
  | committed (inner : ParserExpr)
  | optional (inner : ParserExpr)
  | many0 (inner : ParserExpr)
  | many1 (inner : ParserExpr)
  | list (marks : Parser.ListMarks) (element : ParserExpr)

namespace ParserExpr

mutual

/-- The parser that an expression denotes. -/
def parser : ParserExpr → Parser Datum
  | run0 k => Datum.text <$> Parser.run0 k
  | run1 k => Datum.text <$> Parser.run1 k
  | skipSpace => do Parser.skipSpace; return .nothing
  | space => do Parser.space; return .nothing
  | name => Datum.text <$> Parser.name
  | terminator => do Parser.terminator; return .nothing
  | keyword word => do Parser.keyword word; return .text word
  | symbol mark => do Parser.symbol mark; return .text mark
  | takeUntil mark => Datum.text <$> Parser.takeUntil mark
  | literal => Datum.literal <$> Parser.literal
  | empty => return .nothing
  | seq parts => Datum.list <$> sequence parts
  | alt alternatives => Parser.alt (parsers alternatives)
  | committed inner => Parser.committed inner.parser
  | optional inner => do return (← Parser.optional inner.parser).getD .nothing
  | many0 inner => Datum.list <$> Parser.many0 inner.parser
  | many1 inner => Datum.list <$> Parser.many1 inner.parser
  | list marks element => Datum.list <$> Parser.list marks element.parser

/-- The parsers that expressions denote. -/
def parsers : List ParserExpr → List (Parser Datum)
  | [] => []
  | e :: es => e.parser :: parsers es

/-- Runs the parsers of expressions one after the other. -/
def sequence : List ParserExpr → Parser (List Datum)
  | [] => return []
  | e :: es => do
    let d ← e.parser
    let ds ← sequence es
    return d :: ds

end

end ParserExpr

end EventRules
