/-
# Configurations

What a program compiles to. A configuration lists the initial values of the state slots, the rules
that run on every event, and the peripherals of the device. A rule, or event processor, has a
matcher, a Boolean tree of conditions; when it holds, each of its creators whose own guard holds
sends an event.
-/

import EventRules.Item.Basic
import EventRules.Table

namespace EventRules

/-- A Boolean tree of conditions on an event and the state. -/
inductive Matcher
  | single (extractor : Extractor) (filter : Filter)
  | and (left right : Matcher)
  | or (left right : Matcher)
  | not (inner : Matcher)
  deriving DecidableEq

/-- Why matchers have no conjunction. -/
inductive ConjunctionError
  | noMatcher
  deriving DecidableEq, Repr

/-- The description of why matchers have no conjunction. -/
def ConjunctionError.message : ConjunctionError → Text
  | noMatcher => "conjoin() needs at least one matcher"

namespace Matcher

/-- The conjunction of a list that starts with the given matcher, nested to the left. -/
def conjoin (first : Matcher) (rest : List Matcher) : Matcher :=
  rest.foldl Matcher.and first

/-- The conjunction of a list of matchers, of which there must be one. -/
def conjoinAll : List Matcher → Except ConjunctionError Matcher
  | [] => .error .noMatcher
  | first :: rest => .ok (conjoin first rest)

/-- The matcher that compares what an extractor takes from an event with an integer of 16 bits. -/
def equalToU16 (extractor : ExtractorName) (n : Nat) : Matcher :=
  .single ⟨extractor, .nil⟩ ⟨.valueEqualToConst, .cons (.int .u16 n) .nil⟩

/-- Holds for events with the given code. -/
def eventCode (code : Nat) : Matcher :=
  equalToU16 .eventCode code

/-- Holds for events from the device with the given address. -/
def producerAddress (address : Nat) : Matcher :=
  equalToU16 .eventProducerAddress address

/-- The lines that show a matcher, operands one level below their operator. -/
def lines : Matcher → List Text
  | single extractor filter => [extractor.text ++ " -> " ++ filter.text]
  | and left right => Text.heading "and" (left.lines ++ right.lines)
  | or left right => Text.heading "or" (left.lines ++ right.lines)
  | not inner => Text.heading "not" inner.lines

/-- A matcher as text. -/
def text (m : Matcher) : Text :=
  Text.ofLines m.lines

end Matcher

/-- Sends an event when its rule applies and its guard, if it has one, holds. -/
structure Creator where
  extractor : Extractor
  producer : Producer
  guard : Option Matcher
  deriving DecidableEq

/-- The lines that show a creator. -/
def Creator.lines (c : Creator) : List Text :=
  let guard :=
    match c.guard with
    | none => []
    | some m => Text.indent (Text.heading "if" m.lines)
  (c.extractor.text ++ " -> " ++ c.producer.text) :: guard

/-- A rule: when its matcher holds, its creators send events. -/
structure EventProcessor where
  matcher : Matcher
  creators : List Creator
  deriving DecidableEq

/-- The lines that show a rule. -/
def EventProcessor.lines (p : EventProcessor) : List Text :=
  Text.heading "match" p.matcher.lines ++
    p.creators.flatMap fun c => Text.heading "fire" c.lines

/-- A compiled program. -/
structure Config where
  initialState : Table Nat Value
  processors : List EventProcessor
  peripherals : Table Nat Peripheral
  deriving DecidableEq

namespace Config

/-- The lines that show rules, numbered from `first`. -/
def processorLines (first : Nat) : List EventProcessor → List Text
  | [] => []
  | p :: ps => Text.heading ("#" ++ Text.decimal first) p.lines ++ processorLines (first + 1) ps

/-- The lines that show a configuration: the state and the peripherals by index, the rules in
order. -/
def lines (c : Config) : List Text :=
  Text.heading "initial state:"
    (c.initialState.entries.map fun (i, v) => Text.decimal i ++ ": " ++ v.text) ++
  Text.heading "event processors:" (processorLines 0 c.processors) ++
  Text.heading "peripherals:"
    (c.peripherals.entries.map fun (i, p) => Text.decimal i ++ ": " ++ p.text)

/-- A configuration as text. -/
def describe (c : Config) : Text :=
  Text.ofLines c.lines

end Config

end EventRules
