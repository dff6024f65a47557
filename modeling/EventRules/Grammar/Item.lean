/-
# Item calls

An item is called by its name with arguments in parentheses, and a semicolon ends the call. A known
name commits: then the list of arguments, the semicolon, the number of arguments and the arguments
themselves are looked at in this order.

From here on, `read` is the parser that reads an operand: a literal, or a constant in its place.
-/

import EventRules.Grammar.Literal
import EventRules.Item.Basic

namespace EventRules

/-- A literal in a list of arguments, and where it stands. -/
structure WrittenArgument where
  location : Cursor
  literal : Literal

namespace Parser

/-- A literal or constant as an argument. -/
def writtenArgument (read : Parser Literal) : Parser WrittenArgument := do
  let c ← here
  let l ← read
  return ⟨c, l⟩

/-- A list of arguments in parentheses. -/
def argumentList (read : Parser Literal) : Parser (List WrittenArgument) :=
  list {} (writtenArgument read)

end Parser

/-- Converts written arguments to arguments for parameters, from left to right. Their numbers must
agree; if they do not, the diagnostic is `miscount`. -/
def Arguments.convert (miscount : Diagnostic) :
    (ps : List ParameterType) → List WrittenArgument → Except Failure (Arguments ps)
  | [], [] => .ok .nil
  | p :: ps, a :: as => do
    let argument ← p.cast a.literal (some a.location)
    let rest ← convert miscount ps as
    return .cons argument rest
  | _, _ => .error miscount

/-- Applies a name to written arguments. A wrong number of them is reported at the name. -/
def Item.construct {ν : Type} [ItemName ν] (start : Cursor) (name : ν)
    (arguments : List WrittenArgument) : Except Failure (Item ν) :=
  let parameters := ItemName.parameters name
  let miscount : Diagnostic :=
    .expectedIn start (ItemName.spelling name).length
      (.argumentCount parameters.length arguments.length)
  if arguments.length = parameters.length then do
    return ⟨name, ← Arguments.convert miscount parameters arguments⟩
  else .error miscount

namespace Parser

/-- A call of an item of one sort; `unknown` is the problem with a name of another sort. -/
def itemCall (ν : Type) [ItemName ν] (unknown : Problem) (read : Parser Literal) :
    Parser (Item ν) := do
  let start ← here
  let spelling ← name
  match ItemName.ofSpelling? ν spelling with
  | none =>
    fail (.finding { location := some start, problem := unknown, length := some spelling.length })
  | some itemName => do
    let item ← committed do
      skipSpace
      let arguments ← argumentList read
      terminator
      ofExcept (Item.construct start itemName arguments)
    note (.itemRead spelling start.location)
    return item

/-- A call of an extractor. -/
def extractorCall (read : Parser Literal) : Parser Extractor :=
  itemCall ExtractorName .unknownExtractor read

/-- A call of a filter. -/
def filterCall (read : Parser Literal) : Parser Filter :=
  itemCall FilterName .unknownFilter read

/-- A call of a producer. -/
def producerCall (read : Parser Literal) : Parser Producer :=
  itemCall ProducerName .unknownProducer read

/-- A call of an extractor, or none: then nothing is extracted. -/
def optionalExtractor (read : Parser Literal) : Parser Extractor := do
  let extractor ← optional (extractorCall read)
  return extractor.getD .nothing

end Parser

end EventRules
