/-
# Statements

A program is a sequence of statements. Declarations introduce constants, state variables and
peripherals. Rules say what to do on an event: `send` passes it on, `set` changes the state, and a
`do` block puts matchers and creators together freely.

Each statement starts with a keyword of its own, which commits.
-/

import EventRules.Grammar.Matcher

namespace EventRules

/-- What is read where a statement has to stand. A clause alone is no statement. -/
inductive Statement
  | declaration (d : Declaration)
  | rule (p : EventProcessor)
  | clause (m : Matcher)

/-- The forms of a statement, by their keywords. -/
inductive StatementForm
  | peripheral
  | letState
  | const
  | send
  | doBlock
  | setState
  deriving DecidableEq, Repr

namespace StatementForm

/-- The forms in the order in which they are tried. -/
def all : List StatementForm :=
  [peripheral, letState, const, send, doBlock, setState]

end StatementForm

namespace Parser

/-! ### Declarations -/

/-- A name bound to a literal by a statement: where the name stands and what it is, and where the
literal stands and what it is. -/
structure Binding where
  nameAt : Cursor
  name : Text
  literalAt : Cursor
  literal : Literal

/-- A keyword, a name, an equals sign, and a literal or constant. -/
def binding (read : Parser Literal) (word : Text) : Parser Binding := do
  keyword word
  committed do
    space
    let nameAt ← here
    let name ← name
    nextSymbol "="
    skipSpace
    let literalAt ← here
    let literal ← read
    terminator
    return { nameAt, name, literalAt, literal }

/-- The declaration of a constant. -/
def constStatement (read : Parser Literal) : Parser Declaration := do
  let b ← binding read "const"
  note (.constantRead b.name b.literal)
  return .constant b.name b.literal (some b.nameAt)

/-- The declaration of a state variable with its initial value. -/
def letStatement (read : Parser Literal) : Parser Declaration := do
  let b ← binding read "let"
  let v ← committed (ofExcept (ParameterType.value.cast b.literal (some b.literalAt)))
  note (.stateRead b.name v)
  return .state b.name v (some b.nameAt)

/-- The addresses of the gateways of a peripheral, in parentheses after `pub`. -/
def gatewayList (read : Parser Literal) : Parser (List Nat) := do
  keyword "pub"
  committed do
    skipSpace
    let arguments ← argumentList read
    let addresses ← ofExcept
      (arguments.mapM fun a => ParameterType.u16.cast a.literal (some a.location))
    space
    return addresses

/-- A shape of the family with the given keyword, its channels, and the semicolon after them. -/
def shape (read : Parser Literal) (familyWord : Text) : Parser Shape := do
  let family ← demand (.unknownFamily familyWord) (Family.ofKeyword? familyWord)
  let start ← here
  let shapeWord ← keywordChoice (family.shapes.map ItemName.spelling)
  let shapeName ← demand (.unknownShape shapeWord) (family.shape? shapeWord)
  skipSpace
  let arguments ← argumentList read
  terminator
  ofExcept (Item.construct start shapeName arguments)

/-- The index, the family and the shape of a peripheral with the given gateways. -/
def peripheralBody (read : Parser Literal) (gateways : List Nat) :
    Parser Declaration := do
  space
  let indexAt ← here
  let index ← operand read .u32
  let indexEnd ← here
  space
  let familyWord ← keywordChoice (Family.all.map Family.keyword)
  space
  let entry : Peripheral := { shape := ← shape read familyWord, gateways }
  note (.peripheralRead index entry)
  return .peripheral index entry (some indexAt) (indexEnd.offset - indexAt.offset)

/-- The declaration of a peripheral. -/
def peripheralStatement (read : Parser Literal) : Parser Declaration := do
  match ← optional (gatewayList read) with
  | none =>
    keyword "peripheral"
    committed (peripheralBody read [])
  | some gateways =>
    committed do
      keyword "peripheral"
      peripheralBody read gateways

/-! ### Rules -/

variable [NestingLimit]

/-- The conjunction of matchers, of which there has to be one. -/
def conjunction (ms : List Matcher) : Parser Matcher :=
  ofExcept ((Matcher.conjoinAll ms).mapError fun e => .fault (.conjunction e))

/-- The matchers for an event code, for the address of its producer, and for a condition. -/
def eventMatchers (event address : Nat) (condition : Option Matcher) : List Matcher :=
  .eventCode event :: .producerAddress address :: condition.toList

/-- The rule that passes an event on to a receiver. -/
def sendStatement (terms : Terms) : Parser EventProcessor := do
  keyword "send"
  let (event, address, receiver, condition) ← committed do
    space
    let event ← u16Operand terms.operand
    nextKeyword "from"
    space
    let address ← u16Operand terms.operand
    nextKeyword "to"
    space
    let receiver ← u16Operand terms.operand
    let condition ← condition terms
    terminator
    return (event, address, receiver, condition)
  note (.sendRead event address receiver)
  return {
    matcher := ← conjunction (eventMatchers event address condition)
    creators := [⟨⟨.packet, .nil⟩, ⟨.packet, .cons receiver .nil⟩, none⟩] }

/-- The rule that sets a state variable to a value on an event. -/
def setStatement (terms : Terms) : Parser EventProcessor := do
  keyword "set"
  let (slot, value, event, address, condition) ← committed do
    space
    let slot ← stateVariable terms.slots
    nextKeyword "to"
    space
    let value ← operand terms.operand .value
    nextKeyword "on"
    space
    let event ← u16Operand terms.operand
    nextKeyword "from"
    space
    let address ← u16Operand terms.operand
    let condition ← condition terms
    terminator
    return (slot, value, event, address, condition)
  note (.setRead slot value event address)
  let write : Matcher := .single .nothing ⟨.setStateToConst, .cons slot (.cons value .nil)⟩
  let conditions ← conjunction (eventMatchers event address condition)
  return { matcher := .and conditions write, creators := [] }

/-- A creator: an optional extractor and a producer in braces, and an optional condition. -/
def fireClause (terms : Terms) : Parser Creator := do
  keyword "fire"
  committed do
    nextSymbol "\x7b"
    skipSpace
    let extractor ← optionalExtractor terms.operand
    skipSpace
    let producer ← producerCall terms.operand
    nextSymbol "\x7d"
    let guard ← condition terms
    return { extractor, producer, guard }

/-- A clause of a block with what ends it. -/
def blockClause {α : Type} (clause : Parser α) : Parser α := do
  skipSpace
  let a ← clause
  committed clauseTerminator
  return a

/-- The rule that is put together from matchers and creators. -/
def doStatement (terms : Terms) : Parser EventProcessor := do
  keyword "do"
  let (matchers, creators) ← committed do
    nextSymbol "\x7b"
    let matchers ← many1 (blockClause (matchClause terms))
    let creators ← many0 (blockClause (fireClause terms))
    nextSymbol "\x7d"
    clauseTerminator
    return (matchers, creators)
  note (.blockRead matchers.length creators.length)
  return { matcher := ← conjunction matchers, creators }

/-! ### Choice of a statement -/

/-- A statement of one form. -/
def statementForm (terms : Terms) : StatementForm → Parser Statement
  | .peripheral => Statement.declaration <$> peripheralStatement terms.operand
  | .letState => Statement.declaration <$> letStatement terms.operand
  | .const => Statement.declaration <$> constStatement terms.operand
  | .send => Statement.rule <$> sendStatement terms
  | .doBlock => Statement.rule <$> doStatement terms
  | .setState => Statement.rule <$> setStatement terms

/-- The diagnostic that a statement at a cursor ends with when one of its parsers has failed: a
matcher that is nested too deeply is reported at the start of the statement, and if no form of a
statement starts here, something was expected. -/
def statementFailure (c : Cursor) (d : Diagnostic) : Diagnostic :=
  match d with
  | .finding { problem := .nestingTooDeep, .. } =>
    .finding { location := some c, problem := .nestingTooDeep, severity := .fatal }
  | _ => if d.isFatal then d else (Diagnostic.expectedBecause c .something d).escalate

/-- A statement whose forms are tried in the given order. -/
def statementIn (terms : Terms) (forms : List StatementForm) : Parser Statement := fun c =>
  ((alt (forms.map (statementForm terms))).run c).mapError (statementFailure c)

/-- A statement. -/
def statement (terms : Terms) : Parser Statement :=
  statementIn terms StatementForm.all

end Parser

end EventRules
