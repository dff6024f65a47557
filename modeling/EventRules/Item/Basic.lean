/-
# Items

The building blocks of rules, each called by its name with arguments: an extractor takes a datum
from an event, a filter judges it and may change the state, and a producer makes an event to send.
The shapes of a peripheral are items too; their arguments are channels.

An item is a name together with arguments that fit the parameters of that name, so there is no
ill-typed item.
-/

import EventRules.Item.Parameter

namespace EventRules

/-- Names of items of one sort, with their spelling and the types of their parameters. -/
class ItemName (ν : Type) where
  all : List ν
  spelling : ν → Text
  parameters : ν → List ParameterType

/-- A name applied to arguments. -/
structure Item (ν : Type) [ItemName ν] where
  name : ν
  arguments : Arguments (ItemName.parameters name)

namespace Item

variable {ν : Type} [ItemName ν]

instance [DecidableEq ν] : DecidableEq (Item ν)
  | ⟨m, as⟩, ⟨n, bs⟩ =>
    if h : m = n then by
      subst h
      exact if hs : as = bs then .isTrue (hs ▸ rfl) else .isFalse fun e => hs (by cases e; rfl)
    else .isFalse fun e => h (by cases e; rfl)

/-- The text of a call: the name, and the arguments in parentheses with commas between. -/
def text (i : Item ν) : Text :=
  ItemName.spelling i.name ++ "(" ++ Text.join ", " i.arguments.texts ++ ")"

end Item

/-- The name with a given spelling. -/
def ItemName.ofSpelling? (ν : Type) [ItemName ν] (t : Text) : Option ν :=
  (ItemName.all : List ν).find? (ItemName.spelling · = t)

/-- The names of extractors. -/
inductive ExtractorName
  | nothing
  | packet
  | eventCode
  | eventProducerAddress
  | messageCode
  | messageValue
  | buttonIndex
  deriving DecidableEq, Repr

instance : ItemName ExtractorName where
  all := [.nothing, .packet, .eventCode, .eventProducerAddress, .messageCode, .messageValue,
    .buttonIndex]
  spelling
    | .nothing => "NoneExtractor"
    | .packet => "PacketExtractor"
    | .eventCode => "EventCodeExtractor"
    | .eventProducerAddress => "EventProducerAddressExtractor"
    | .messageCode => "MessageCodeExtractor"
    | .messageValue => "MessageValueExtractor"
    | .buttonIndex => "ButtonIndexExtractor"
  parameters _ := []

/-- The names of filters. -/
inductive FilterName
  | valueEqualToConst
  | stateEqualToConst
  | stateEqualToValue
  | incrementStateByConst
  | incrementStateByValue
  | decrementStateByConst
  | decrementStateByValue
  | setStateToConst
  | setStateToValue
  | flipState
  | timeMatchesCron
  | stateMoreThanConst
  deriving DecidableEq, Repr

instance : ItemName FilterName where
  all := [.valueEqualToConst, .stateEqualToConst, .stateEqualToValue, .incrementStateByConst,
    .incrementStateByValue, .decrementStateByConst, .decrementStateByValue, .setStateToConst,
    .setStateToValue, .flipState, .timeMatchesCron, .stateMoreThanConst]
  spelling
    | .valueEqualToConst => "ValueEqualToConstFilter"
    | .stateEqualToConst => "StateEqualToConstFilter"
    | .stateEqualToValue => "StateEqualToValueFilter"
    | .incrementStateByConst => "IncrementStateByConstFilter"
    | .incrementStateByValue => "IncrementStateByValueFilter"
    | .decrementStateByConst => "DecrementStateByConstFilter"
    | .decrementStateByValue => "DecrementStateByValueFilter"
    | .setStateToConst => "SetStateToConstFilter"
    | .setStateToValue => "SetStateToValueFilter"
    | .flipState => "FlipStateFilter"
    | .timeMatchesCron => "TimeMatchesCronExpressionFilter"
    | .stateMoreThanConst => "StateMoreThanConstFilter"
  parameters
    | .valueEqualToConst => [.value]
    | .stateEqualToConst | .incrementStateByConst | .decrementStateByConst | .setStateToConst
    | .stateMoreThanConst => [.u32, .value]
    | .stateEqualToValue | .incrementStateByValue | .decrementStateByValue | .setStateToValue
    | .flipState => [.u32]
    | .timeMatchesCron => [.cron]

/-- The names of producers. -/
inductive ProducerName
  | nothing
  | packet
  | message
  | bcmChangeBrightness
  | bcmChangeBrightnessState
  | bcmAnimateBrightness
  | bcmAnimateBrightnessState
  | relaySetValue
  deriving DecidableEq, Repr

instance : ItemName ProducerName where
  all := [.nothing, .packet, .message, .bcmChangeBrightness, .bcmChangeBrightnessState,
    .bcmAnimateBrightness, .bcmAnimateBrightnessState, .relaySetValue]
  spelling
    | .nothing => "NoneProducer"
    | .packet => "PacketProducer"
    | .message => "MessageProducer"
    | .bcmChangeBrightness => "BcmChangeBrightnessProducer"
    | .bcmChangeBrightnessState => "BcmChangeBrightnessStateProducer"
    | .bcmAnimateBrightness => "BcmAnimateBrightnessProducer"
    | .bcmAnimateBrightnessState => "BcmAnimateBrightnessStateProducer"
    | .relaySetValue => "RelaySetValueProducer"
  parameters
    | .nothing => []
    | .packet => [.address]
    | .message => [.address, .u16, .messageValue]
    | .bcmChangeBrightness => [.address, .u8, .bcmValue]
    | .bcmChangeBrightnessState => [.address, .u8, .u32]
    | .bcmAnimateBrightness => [.address, .u8, .u32, .bcmValue]
    | .bcmAnimateBrightnessState => [.address, .u8, .u32, .u32]
    | .relaySetValue => [.address, .u8, .relayValue]

/-- The names of the shapes of a peripheral: how many channels it drives, and to what end. -/
inductive ShapeName
  | bcmSingle
  | bcmRgb
  | bcmRgbw
  | relaySingle
  | relayDoubleExclusive
  deriving DecidableEq, Repr

instance : ItemName ShapeName where
  all := [.bcmSingle, .bcmRgb, .bcmRgbw, .relaySingle, .relayDoubleExclusive]
  spelling
    | .bcmSingle | .relaySingle => "single"
    | .bcmRgb => "rgb"
    | .bcmRgbw => "rgbw"
    | .relayDoubleExclusive => "double_exclusive"
  parameters
    | .bcmSingle | .relaySingle => [.u8]
    | .bcmRgb => [.u8, .u8, .u8]
    | .bcmRgbw => [.u8, .u8, .u8, .u8]
    | .relayDoubleExclusive => [.u8, .u8]

/-- Takes a datum from an event. -/
abbrev Extractor := Item ExtractorName

/-- Judges a datum, and may change the state. -/
abbrev Filter := Item FilterName

/-- Makes an event to send. -/
abbrev Producer := Item ProducerName

/-- The channels of a peripheral. -/
abbrev Shape := Item ShapeName

/-- The extractor that takes nothing from an event. -/
def Extractor.nothing : Extractor := ⟨.nothing, .nil⟩

/-- The families of peripherals: dimmed outputs and relays. -/
inductive Family
  | bcm
  | relay
  deriving DecidableEq, Repr

namespace Family

/-- The families. -/
def all : List Family := [bcm, relay]

/-- The keyword of a family. -/
def keyword : Family → Text
  | bcm => "bcm"
  | relay => "relay"

/-- The family with a given keyword. -/
def ofKeyword? (word : Text) : Option Family :=
  all.find? (·.keyword = word)

/-- The shapes of a family. -/
def shapes : Family → List ShapeName
  | bcm => [.bcmSingle, .bcmRgb, .bcmRgbw]
  | relay => [.relaySingle, .relayDoubleExclusive]

/-- The shape of a family with a given spelling. -/
def shape? (family : Family) (word : Text) : Option ShapeName :=
  family.shapes.find? (ItemName.spelling · = word)

end Family

/-- The family of a shape. -/
def ShapeName.family : ShapeName → Family
  | bcmSingle | bcmRgb | bcmRgbw => .bcm
  | relaySingle | relayDoubleExclusive => .relay

/-- The text of a shape after the keyword of its family. -/
def Shape.describe (s : Shape) : Text :=
  s.name.family.keyword ++ " " ++ s.text

/-- A peripheral: its channels, and the addresses of the gateways that also get its events. -/
structure Peripheral where
  shape : Shape
  gateways : List Nat
  deriving DecidableEq

/-- The text of a peripheral: its family, its shape and, if there are any, its gateways. -/
def Peripheral.text (p : Peripheral) : Text :=
  if p.gateways.isEmpty then p.shape.describe
  else
    let addresses := p.gateways.map fun address => "0x" ++ Text.hexPadded 4 address
    p.shape.describe ++ " pub(" ++ Text.join ", " addresses ++ ")"

end EventRules
