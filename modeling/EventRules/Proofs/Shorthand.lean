/-
# Shorthand rules

The rules `send` and `set` are shorthand for blocks. Whatever their operands and their condition
are, a shorthand rule and the block that it stands for are read as the same rule.

In the block for `set`, the write to the state variable is a filter, which takes the number of the
slot from the constant that is the alias of the variable. Both read the same slot as long as nothing
is declared twice. The write is the last thing that the rule evaluates.
-/

import EventRules.Proofs.Alias
import EventRules.Proofs.Block

namespace EventRules

/-- There is a level for a matcher that has none inside. -/
theorem NestingLimit.one_le_levels [NestingLimit] : 1 ≤ levels :=
  Nat.le_trans (by decide) le_levels

/-! ### Calls with given operands -/

/-- A call of an item: its name, the operands in parentheses, and a semicolon. -/
def callText (name : Text) (operands : List Text) : Text :=
  name ++ (['('] ++ (Text.join ", " operands ++ [')']) ++ [';'])

/-- Each text is accepted as an operand for its parameter. -/
def OperandTexts (constants : Table Text Literal) (ts : List Text)
    (as : List ((p : ParameterType) × p.Argument)) : Prop :=
  List.Forall₂ (fun t a => (Parser.operand constants a.1).Accepts t a.2) ts as

section Calls

variable {constants : Table Text Literal} {c d : Cursor} {ts : List Text}
  {as : List ((p : ParameterType) × p.Argument)}

theorem exists_operandAt {t : Text} {p : ParameterType} {a : p.Argument}
    (h : (Parser.operand constants p).Accepts t a) (hcross : c.Crosses t d)
    (hd : d.rest.Stops isNameChar) : ∃ l, OperandAt constants c l d ∧ p.convert l = .ok a :=
  Parser.operand_eq_ok_iff.1
    ((Parser.operand_portable p (h [])).of_crosses (Cursor.crosses_source [] t) hcross hd)

/-- Accepted operands between commas are read one by one, each up to the comma behind it. -/
theorem exists_operandsAt {t : Text} {a : (p : ParameterType) × p.Argument}
    (h : OperandTexts constants (t :: ts) (a :: as))
    (hcross : c.Crosses (Text.join ", " (t :: ts)) d) (hd : d.rest.Stops isNameChar) :
    ∃ ls, OperandsAt constants c ls d ∧
      List.Forall₂ (fun l a => a.1.convert l = .ok a.2) ls (a :: as) := by
  induction ts generalizing c t a as with
  | nil =>
    obtain ⟨hfirst, hnil⟩ := List.forall₂_cons.1 h
    obtain rfl := List.forall₂_nil_left_iff.1 hnil
    rw [Text.join_singleton] at hcross
    obtain ⟨l, hl, hconvert⟩ := exists_operandAt hfirst hcross hd
    exact ⟨[l], .one hl, .cons hconvert .nil⟩
  | cons u us ih =>
    obtain ⟨hfirst, hrest⟩ := List.forall₂_cons.1 h
    obtain ⟨b, bs, hsecond, hmore, rfl⟩ := List.forall₂_cons_left_iff.1 hrest
    rw [Text.join_cons_cons] at hcross
    obtain ⟨ht, hcross⟩ := hcross.split
    obtain ⟨hseparator, hcross⟩ := hcross.split
    obtain ⟨hcomma, hspace⟩ := Cursor.Crosses.split (t := [',']) (u := [' ']) hseparator
    have hstops : Text.Stops isNameChar (c.advance t.length).rest := by
      rw [hcomma.rest_eq]
      exact Text.stops_cons.2 (by decide)
    obtain ⟨l, hl, hconvert⟩ := exists_operandAt hfirst ht hstops
    obtain ⟨ls, hls, hconverts⟩ := ih (.cons hsecond hmore) hcross
    exact ⟨l :: ls, .cons hl ⟨_, .refl ht.inSource, hcomma⟩ ⟨_, Parser.isSpace_of_mem_space, hspace⟩
      hls, .cons hconvert hconverts⟩

/-- Accepted operands in parentheses are read as arguments. -/
theorem exists_argumentsAt (h : OperandTexts constants ts as)
    (hcross : c.Crosses (['('] ++ (Text.join ", " ts ++ [')'])) d) :
    ∃ ls, ArgumentsAt constants c ls d ∧
      List.Forall₂ (fun l a => a.1.convert l = .ok a.2) ls as := by
  obtain ⟨hopen, hcross⟩ := hcross.split
  cases h with
  | nil => exact ⟨[], .none hopen ⟨_, .refl hopen.inSource, hcross⟩, .nil⟩
  | cons hfirst hrest =>
    obtain ⟨hts, hclose⟩ := hcross.split
    obtain ⟨ls, hls, hconverts⟩ := exists_operandsAt (.cons hfirst hrest) hts (by
      rw [hclose.rest_eq]
      exact Text.stops_cons.2 (by decide))
    exact ⟨ls, .some hopen (.refl hopen.inSource) hls ⟨_, .refl hts.inSource, hclose⟩, hconverts⟩

/-- A call is derived from its text if its operands are accepted. -/
theorem callAt_of_crosses {ν : Type} [ItemName ν] {i : Item ν}
    (h : OperandTexts constants ts i.arguments.toList)
    (hcross : c.Crosses (callText (ItemName.spelling i.name) ts) d) : CallAt constants c i d := by
  obtain ⟨hname, hcross⟩ := hcross.split
  obtain ⟨harguments, hend⟩ := hcross.split
  have hstops : Text.Stops isNameChar (c.advance (ItemName.spelling i.name).length).rest := by
    rw [harguments.rest_eq]
    exact Text.stops_cons.2 (by decide)
  obtain ⟨ls, hls, hconverts⟩ := exists_argumentsAt h harguments
  exact .call ⟨hname, hstops⟩ (.refl hname.inSource) hls ⟨_, .refl harguments.inSource, hend⟩
    hconverts

namespace Parser

variable {v : Text}

/-- A call with accepted operands is read as its item. -/
theorem itemCall_reads_operands {ν : Type} [ItemName ν] [Spelled ν] {unknown : Problem}
    {i : Item ν} (h : OperandTexts constants ts i.arguments.toList) :
    (itemCall ν unknown constants).Reads (callText (ItemName.spelling i.name) ts) v (· = i) := by
  intro c hc hrest
  exact ⟨i, itemCall_eq_ok_iff.2 (callAt_of_crosses h ⟨hc, ⟨v, hrest.symm⟩, rfl⟩), rfl⟩

theorem optionalExtractor_reads_operands {e : Extractor}
    (h : OperandTexts constants ts e.arguments.toList) :
    (optionalExtractor constants).Reads (callText (ItemName.spelling e.name) ts) v (· = e) := by
  intro c hc hrest
  exact ⟨e, optionalExtractor_eq_ok_iff.2 (.inl (callAt_of_crosses h
    ⟨hc, ⟨v, hrest.symm⟩, rfl⟩)), rfl⟩

/-- A filter alone in braces. -/
theorem matcher_reads_filter [NestingLimit] {f : Filter}
    (h : OperandTexts constants ts f.arguments.toList) :
    (matcher constants).Reads
      ('{' :: ' ' :: (callText (ItemName.spelling f.name) ts ++ [' ', '}'])) v
      (· = .single .nothing f) := by
  intro c hc hrest
  have hcross : c.Crosses (['{'] ++ ([' '] ++ (callText (ItemName.spelling f.name) ts ++
      ([' '] ++ ['}'])))) _ := ⟨hc, ⟨v, hrest.symm⟩, rfl⟩
  obtain ⟨hopen, hcross⟩ := hcross.split
  obtain ⟨hspace, hcross⟩ := hcross.split
  obtain ⟨hcall, hcross⟩ := hcross.split
  obtain ⟨hspace', hclose⟩ := hcross.split
  refine ⟨_, matcher_eq_ok_iff.2 ⟨.filter hopen ⟨_, isSpace_of_mem_space, hspace⟩
    (callAt_of_crosses h hcall) ⟨_, ⟨_, isSpace_of_mem_space, hspace'⟩, hclose⟩, ?_⟩, rfl⟩
  exact NestingLimit.one_le_levels

end Parser

end Calls

/-! ### Written rules -/

namespace Shorthand

/-- `match` and a matcher. -/
def matchText (body : Text) : Text :=
  "match" ++ ' ' :: body

/-- ` if match B` for a condition `B`. -/
def conditionText : Option Text → Text
  | none => []
  | some body => [' '] ++ "if" ++ ' ' :: matchText body

/-- The bodies of the clauses for an event, its producer and a condition. -/
def bodies (event address : Text) (condition : Option Text) : List Text :=
  ("event" ++ ' ' :: event) :: ("producer" ++ ' ' :: address) :: condition.toList

/-- A block with a clause for each of the bodies, with a semicolon, and a last clause without. -/
def blockText (bodies : List Text) (last : Text) : Text :=
  "do" ++ ([' ', '{'] ++ (bodies.flatMap (fun body => ' ' :: (matchText body ++ [';'])) ++
    (' ' :: (last ++ [' ', '}']))))

/-- `fire { PacketExtractor(); PacketProducer(r); }`. -/
def packetText (receiver : Text) : Text :=
  "fire" ++ ([' ', '{'] ++ ' ' :: (callText "PacketExtractor" [] ++ ' ' ::
    (callText "PacketProducer" [receiver] ++ [' ', '}'])))

/-- `{ SetStateToConstFilter(x, v); }`. -/
def writeText (x value : Text) : Text :=
  '{' :: ' ' :: (callText "SetStateToConstFilter" [x, value] ++ [' ', '}'])

/-- `send e from a to r if match B;`. -/
def sendText (event address receiver : Text) (condition : Option Text) : Text :=
  "send" ++ ' ' :: (event ++ ([' '] ++ "from" ++ ' ' :: (address ++ ([' '] ++ "to" ++ ' ' ::
    (receiver ++ (conditionText condition ++ [';']))))))

/-- `do { match event e; match producer a; match B; fire { .. } }`. -/
def sendBlockText (event address receiver : Text) (condition : Option Text) : Text :=
  blockText (bodies event address condition) (packetText receiver)

/-- `set x to v on e from a if match B;`. -/
def setText (x value event address : Text) (condition : Option Text) : Text :=
  "set" ++ ' ' :: (x ++ ([' '] ++ "to" ++ ' ' :: (value ++ ([' '] ++ "on" ++ ' ' :: (event ++
    ([' '] ++ "from" ++ ' ' :: (address ++ (conditionText condition ++ [';']))))))))

/-- `do { match event e; match producer a; match B; match { .. } }`. -/
def setBlockText (x value event address : Text) (condition : Option Text) : Text :=
  blockText (bodies event address condition) (matchText (writeText x value))

/-- The conjunction of the matchers for an event, its producer and a condition. -/
def eventMatcher (event address : Nat) (guard : Option Matcher) : Matcher :=
  .conjoin (.eventCode event) (.producerAddress address :: guard.toList)

/-- The rule that passes packets on. -/
def sendRule (event address receiver : Nat) (guard : Option Matcher) : EventProcessor where
  matcher := eventMatcher event address guard
  creators := [⟨⟨.packet, .nil⟩, ⟨.packet, .cons receiver .nil⟩, none⟩]

/-- The filter that writes a value to a slot. -/
def writeFilter (slot : Nat) (value : Value) : Filter :=
  ⟨.setStateToConst, .cons slot (.cons value .nil)⟩

/-- The rule that writes a value to a slot. -/
def writeRule (slot : Nat) (value : Value) (event address : Nat) (guard : Option Matcher) :
    EventProcessor where
  matcher := .and (eventMatcher event address guard) (.single .nothing (writeFilter slot value))
  creators := []

end Shorthand

namespace Parser

open Shorthand

variable {α β : Type} {p : Parser α} {scope : Scope} {v w : Text}

/-! ### Reading shorthand rules -/

/-- A keyword between spaces, and then a text that the next parser accepts. -/
theorem afterKeyword_reads {f : α → Parser β} {R : β → Prop} (hp : p.Portable)
    (hopens : p.Opens fun ch => !isSpace ch) {word : Text} (hword : word.IsName) (k : Accepted p)
    (hw : Text.Stops isNameChar (w ++ v)) (hf : (f k.value).Reads w v R) :
    (do nextKeyword word; space; let a ← p; f a : Parser β).Reads
      ([' '] ++ word ++ ' ' :: (k.text ++ w)) v R := by
  refine .bind (nextKeyword_reads hword (Text.stops_cons.2 (by decide))) fun _ _ => ?_
  refine .bind (u := [' ']) (spaceBefore_reads (k.starts hopens) (by simp) w) fun _ _ => ?_
  refine .bind (k.reads hp hw) ?_
  rintro _ rfl
  exact hf

theorem stops_conditionText (condition : Option Text) :
    Text.Stops isNameChar (conditionText condition ++ [';'] ++ v) := by
  cases condition <;> exact Text.stops_cons.2 (by decide)

/-- A keyword and an accepted number are read as the matcher for it. -/
theorem numberForm_reads (k : Accepted (u16Operand scope.constants)) (word : Text)
    (build : Nat → Matcher) (hv : v.Stops isNameChar) :
    (numberForm scope.constants word build).Reads (word ++ ' ' :: k.text) v
      (· = build k.value) := by
  refine .bind (keyword_reads _ (Text.stops_cons.2 (by decide))) fun _ _ => .committed ?_
  refine .bind (u := [' ']) (space_reads (by decide) isSpace_of_mem_space
    (((k.starts (operand_opens .u16)).append v).stops (by simp))) fun _ _ => ?_
  refine .of_eq (.bind (w := []) (k.reads (operand_portable .u16) hv) ?_) (List.append_nil _)
  rintro _ rfl
  exact .pure rfl

/-- The name of a state variable is also an operand for its slot, if it is aliased. -/
theorem operand_accepts_alias {s : Symbols} (x : Accepted (stateVariable s.slots))
    (h : s.Aliased x.text) : (operand s.constants .u32).Accepts x.text x.value := by
  intro name
  obtain ⟨word, hword, hat, hslot⟩ := stateVariable_eq_ok_iff.1 (x.accepts name)
  obtain rfl := (Cursor.crosses_source name x.text).text_eq hat.1
  refine operand_eq_ok_iff.2 ⟨.int .u32 x.value, ?_, rfl⟩
  rw [OperandAt, outcome_literalOrConstant, name_eq_ok_iff.2 ⟨hword, Cursor.word_iff.1 hat⟩]
  dsimp only
  rw [h _ hslot]

/-- Every literal but a string is a value. -/
theorem exists_operand_value {constants : Table Text Literal}
    (k : Accepted (literalOrConstant constants)) (h : ∀ t, k.value ≠ .string t) :
    ∃ a, ParameterType.value.convert k.value = .ok a ∧
      (operand constants .value).Accepts k.text a := by
  have hconvert : ∃ a, ParameterType.value.convert k.value = .ok a := by
    cases hk : k.value with
    | string t => exact absurd hk (h t)
    | int | bool | colour => exact ⟨_, rfl⟩
  obtain ⟨a, ha⟩ := hconvert
  exact ⟨a, ha, fun name => operand_eq_ok_iff.2 ⟨k.value, k.accepts name, ha⟩⟩

variable [NestingLimit]

theorem matchClause_reads_accepted (k : Accepted (matcher scope)) (hv : v.Stops isNameChar) :
    (matchClause scope).Reads (matchText k.text) v (· = k.value) :=
  matchClause_reads_matcher (k.starts (matcherIn_opens scope.constants _))
    (k.reads matcher_portable hv)

/-- A condition is read up to the semicolon behind it. -/
theorem condition_reads_accepted (guard : Option (Accepted (matcher scope))) :
    (condition scope).Reads (conditionText (guard.map (·.text))) (';' :: v)
      (· = guard.map (·.value)) := by
  cases guard with
  | none => exact condition_reads_none (Text.stops_cons.2 (by decide))
  | some k =>
    exact condition_reads_some (matchClause_reads_accepted k (Text.stops_cons.2 (by decide)))

/-- The text of a `send` statement is read as its rule. -/
theorem sendStatement_reads (event address receiver : Accepted (u16Operand scope.constants))
    (guard : Option (Accepted (matcher scope))) :
    (sendStatement scope).Reads
      (sendText event.text address.text receiver.text (guard.map (·.text))) v
      (· = sendRule event.value address.value receiver.value (guard.map (·.value))) := by
  have hp : (u16Operand scope.constants).Portable := operand_portable .u16
  have hopens : (u16Operand scope.constants).Opens fun ch => !isSpace ch := operand_opens .u16
  refine .bind (keyword_reads _ (Text.stops_cons.2 (by decide))) fun _ _ => ?_
  refine .of_eq (.bind (w := []) (Q := (· = (event.value, address.value, receiver.value,
    guard.map (·.value)))) (.committed ?_) ?_) (List.append_nil _)
  · refine .bind (u := [' ']) (spaceBefore_reads (event.starts hopens) (by simp) _) fun _ _ =>
      .bind (event.reads hp (Text.stops_cons.2 (by decide))) ?_
    rintro _ rfl
    refine afterKeyword_reads hp hopens (by decide) address (Text.stops_cons.2 (by decide)) ?_
    refine afterKeyword_reads hp hopens (by decide) receiver (stops_conditionText _) ?_
    refine .bind (condition_reads_accepted guard) ?_
    rintro _ rfl
    exact .bind (w := []) terminator_reads fun _ _ => .pure rfl
  · rintro _ rfl
    exact .bind (u := []) (.note _) fun _ _ => .pure rfl

/-- The text of a `set` statement is read as its rule. -/
theorem setStatement_reads (x : Accepted (stateVariable scope.slots))
    (value : Accepted (operand scope.constants .value))
    (event address : Accepted (u16Operand scope.constants))
    (guard : Option (Accepted (matcher scope))) :
    (setStatement scope).Reads
      (setText x.text value.text event.text address.text (guard.map (·.text))) v
      (· = writeRule x.value value.value event.value address.value (guard.map (·.value))) := by
  have hp : (u16Operand scope.constants).Portable := operand_portable .u16
  have hopens : (u16Operand scope.constants).Opens fun ch => !isSpace ch := operand_opens .u16
  refine .bind (keyword_reads _ (Text.stops_cons.2 (by decide))) fun _ _ => ?_
  refine .of_eq (.bind (w := []) (Q := (· = (x.value, value.value, event.value, address.value,
    guard.map (·.value)))) (.committed ?_) ?_) (List.append_nil _)
  · refine .bind (u := [' ']) (spaceBefore_reads (x.starts (stateVariable_opens _)) (by simp) _)
      fun _ _ => .bind (x.reads (stateVariable_portable _) (Text.stops_cons.2 (by decide))) ?_
    rintro _ rfl
    refine afterKeyword_reads (operand_portable .value) (operand_opens .value) (by decide) value
      (Text.stops_cons.2 (by decide)) ?_
    refine afterKeyword_reads hp hopens (by decide) event (Text.stops_cons.2 (by decide)) ?_
    refine afterKeyword_reads hp hopens (by decide) address (stops_conditionText _) ?_
    refine .bind (condition_reads_accepted guard) ?_
    rintro _ rfl
    exact .bind (w := []) terminator_reads fun _ _ => .pure rfl
  · rintro _ rfl
    exact .bind (u := []) (.note _) fun _ _ => .pure rfl

/-! ### Reading their blocks -/

/-- A matcher after `match`. -/
def Accepted.matching (k : Accepted (matcher scope)) : Accepted (matchClause scope) where
  text := matchText k.text
  value := k.value
  accepts := Reads.accepts (matchClause_reads_accepted k (Text.stops_nil _))

/-- A matcher is read by the form with which its text starts. -/
theorem matcher_reads_form {Q : Matcher → Prop} (form : MatcherForm)
    (hw : w.Starts (· = form.initial))
    (hform : ∀ inner, (matcherForm scope.constants inner form).Reads w v Q) :
    (matcher scope).Reads w v Q := by
  obtain ⟨levels, hlevels⟩ := Nat.exists_eq_add_of_le' NestingLimit.one_le_levels
  rw [matcher, hlevels]
  exact matcherForms_read form hw (hform _)

/-- The matcher for the code of an event. -/
def eventBody (k : Accepted (u16Operand scope.constants)) : Accepted (matcher scope) where
  text := "event" ++ ' ' :: k.text
  value := .eventCode k.value
  accepts := Reads.accepts (matcher_reads_form .event (Text.starts_cons.2 (by decide)) fun _ =>
    numberForm_reads k "event" .eventCode (Text.stops_nil _))

/-- The matcher for the producer of an event. -/
def producerBody (k : Accepted (u16Operand scope.constants)) : Accepted (matcher scope) where
  text := "producer" ++ ' ' :: k.text
  value := .producerAddress k.value
  accepts := Reads.accepts (matcher_reads_form .producer (Text.starts_cons.2 (by decide)) fun _ =>
    numberForm_reads k "producer" .producerAddress (Text.stops_nil _))

/-- A creator that passes packets on is accepted. What is an integer of 16 bits is also an address.
-/
theorem packetText_accepts (receiver : Accepted (u16Operand scope.constants)) :
    (fireClause scope).Accepts (packetText receiver.text)
      ⟨⟨.packet, .nil⟩, ⟨.packet, .cons receiver.value .nil⟩, none⟩ := by
  have hextractor : OperandTexts scope.constants []
      (⟨.packet, .nil⟩ : Extractor).arguments.toList := .nil
  have hproducer : OperandTexts scope.constants [receiver.text]
      (⟨.packet, .cons receiver.value .nil⟩ : Producer).arguments.toList :=
    .cons (fun name => operand_eq_ok_iff.2 ⟨_, u16Operand_eq_ok_iff.1 (receiver.accepts name), rfl⟩)
      .nil
  exact Reads.accepts (fireClause_reads_items
    (fun _ => optionalExtractor_reads_operands hextractor) (Text.starts_cons.2 (by decide))
    (fun _ => itemCall_reads_operands hproducer) (Text.starts_cons.2 (by decide))
    (condition_reads_none (Text.stops_nil _)))

/-- The filter that writes a value to a slot is accepted. -/
theorem writeText_accepts {x : Text} {slot : Nat} {value : Text} {a : Value}
    (hx : (operand scope.constants .u32).Accepts x slot)
    (hvalue : (operand scope.constants .value).Accepts value a) :
    (matcher scope).Accepts (writeText x value) (.single .nothing (writeFilter slot a)) := by
  have hfilter : OperandTexts scope.constants [x, value]
      (writeFilter slot a).arguments.toList := .cons hx (.cons hvalue .nil)
  exact Reads.accepts (matcher_reads_filter hfilter)

/-- Clauses with a semicolon each, as they stand in a block. -/
theorem flatMap_written_matching (ks : List (Accepted (matcher scope))) :
    (ks.map (·.matching.clause.ended)).flatMap (·.written) =
      (ks.map (·.text)).flatMap fun body => ' ' :: (matchText body ++ [';']) := by
  rw [List.flatMap_map, List.flatMap_map]
  rfl

/-- Matchers and a creator in a block. -/
theorem doStatement_reads_creator (k : Accepted (matcher scope))
    (ks : List (Accepted (matcher scope))) (f : Accepted (fireClause scope))
    (hf : f.text.getLast? = some '}') (hv : v.NoSemicolon) :
    (doStatement scope).Reads (blockText ((k :: ks).map (·.text)) f.text) v
      (· = ⟨.conjoin k.value (ks.map (·.value)), [f.value]⟩) := by
  have hblock := doStatement_reads_clauses k.matching.clause.ended
    (ks.map (·.matching.clause.ended)) [f.clause.closed hf] isSpace_of_mem_space hv
  rw [List.map_map] at hblock
  refine hblock.of_eq ?_
  rw [blockText, ← flatMap_written_matching]
  have hclosed := f.clause.written_closed hf
  simp only [blockStart, hclosed, List.flatMap_cons, List.flatMap_nil, List.map_cons,
    List.append_nil, List.append_assoc]
  rfl

/-- Matchers in a block, of which the last one is ended by its brace. -/
theorem doStatement_reads_matcher (k : Accepted (matcher scope))
    (ks : List (Accepted (matcher scope))) (last : Accepted (matcher scope))
    (hlast : (matchText last.text).getLast? = some '}') (hv : v.NoSemicolon) :
    (doStatement scope).Reads (blockText ((k :: ks).map (·.text)) (matchText last.text)) v
      (· = ⟨.and (.conjoin k.value (ks.map (·.value))) last.value, []⟩) := by
  have hblock := doStatement_reads_clauses k.matching.clause.ended
    (ks.map (·.matching.clause.ended) ++ [last.matching.clause.closed hlast])
    [] isSpace_of_mem_space hv
  -- conjunctions are nested to the left, so the last matcher is the right operand of the last one
  rw [List.map_append, List.map_map, Matcher.conjoin, List.foldl_append] at hblock
  refine hblock.of_eq ?_
  rw [blockText, ← flatMap_written_matching]
  have hclosed := last.matching.clause.written_closed hlast
  simp only [blockStart, hclosed, List.flatMap_append, List.flatMap_cons, List.flatMap_nil,
    List.map_cons, List.append_nil, List.append_assoc]
  rfl

/-- The block for a `send` statement is read as its rule. -/
theorem doStatement_reads_sendBlockText
    (event address receiver : Accepted (u16Operand scope.constants))
    (guard : Option (Accepted (matcher scope))) (hv : v.NoSemicolon) :
    (doStatement scope).Reads
      (sendBlockText event.text address.text receiver.text (guard.map (·.text))) v
      (· = sendRule event.value address.value receiver.value (guard.map (·.value))) := by
  have hpacket := packetText_accepts receiver
  have hblock := doStatement_reads_creator (eventBody event)
    (producerBody address :: guard.toList) ⟨_, _, hpacket⟩ (getLast?_fireClause hpacket rfl) hv
  rw [List.map_cons, List.map_cons, List.map_cons, ← Option.toList_map, ← Option.toList_map]
    at hblock
  exact hblock

/-- The block for a `set` statement is read as its rule. -/
theorem doStatement_reads_setBlockText {x value : Text} {slot : Nat} {a : Value}
    (hx : (operand scope.constants .u32).Accepts x slot)
    (hvalue : (operand scope.constants .value).Accepts value a)
    (event address : Accepted (u16Operand scope.constants))
    (guard : Option (Accepted (matcher scope))) (hv : v.NoSemicolon) :
    (doStatement scope).Reads
      (setBlockText x value event.text address.text (guard.map (·.text))) v
      (· = writeRule slot a event.value address.value (guard.map (·.value))) := by
  have hbrace : (callText "SetStateToConstFilter" [x, value] ++ [' ', '}']).getLast? = some '}' :=
    Text.getLast?_append_of_eq rfl
  have hlast : (matchText (writeText x value)).getLast? = some '}' :=
    Text.getLast?_append_of_eq (Text.getLast?_append_of_eq (t := [' ', '{', ' ']) hbrace)
  have hblock := doStatement_reads_matcher (eventBody event) (producerBody address :: guard.toList)
    ⟨_, _, writeText_accepts hx hvalue⟩ hlast hv
  rw [List.map_cons, List.map_cons, List.map_cons, ← Option.toList_map, ← Option.toList_map]
    at hblock
  exact hblock

end Parser

/-! ### The order of evaluation -/

namespace Matcher

/-- The leaves of a matcher in the order in which they are evaluated, from left to right. -/
def leaves : Matcher → List (Extractor × Filter)
  | single e f => [(e, f)]
  | and l r | or l r => l.leaves ++ r.leaves
  | not m => m.leaves

/-- Conjunctions evaluate their matchers in order. -/
theorem leaves_conjoin (first : Matcher) (rest : List Matcher) :
    (conjoin first rest).leaves = first.leaves ++ rest.flatMap leaves := by
  induction rest generalizing first with
  | nil => exact (List.append_nil _).symm
  | cons m rest ih =>
    calc (conjoin first (m :: rest)).leaves
      _ = (first.and m).leaves ++ rest.flatMap leaves := ih (first.and m)
      _ = first.leaves ++ (m :: rest).flatMap leaves := List.append_assoc ..

end Matcher

namespace Parser

open Shorthand

/-- A shorthand rule and the block that it stands for are read as the same rule. In the rule for
`set`, the write comes after the event, its producer and every leaf of the condition. -/
theorem shorthand_reads_as_block [NestingLimit] :
    (∀ (scope : Scope) (event address receiver : Accepted (u16Operand scope.constants))
      (guard : Option (Accepted (matcher scope))),
      let p := sendRule event.value address.value receiver.value (guard.map (·.value))
      (sendStatement scope).Accepts
          (sendText event.text address.text receiver.text (guard.map (·.text))) p ∧
        (doStatement scope).Accepts
          (sendBlockText event.text address.text receiver.text (guard.map (·.text))) p) ∧
    ∀ s : Symbols, s.Reached →
      ∀ (x : Accepted (stateVariable s.slots)) (value : Accepted (literalOrConstant s.constants))
        (event address : Accepted (u16Operand s.constants))
        (guard : Option (Accepted (matcher s.toScope))),
        (∀ t, value.value ≠ .string t) →
        ∃ a, ParameterType.value.convert value.value = .ok a ∧
          let p := writeRule x.value a event.value address.value (guard.map (·.value))
          (setStatement s.toScope).Accepts
              (setText x.text value.text event.text address.text (guard.map (·.text))) p ∧
            (doStatement s.toScope).Accepts
              (setBlockText x.text value.text event.text address.text (guard.map (·.text))) p ∧
            p.matcher.leaves = (Matcher.eventCode event.value).leaves ++
              ((Matcher.producerAddress address.value).leaves ++
                (guard.toList.flatMap (·.value.leaves) ++
                  [(.nothing, writeFilter x.value a)])) := by
  refine ⟨fun scope event address receiver guard => ?_,
    fun s hs x value event address guard hvalue => ?_⟩
  · exact ⟨Reads.accepts (sendStatement_reads event address receiver guard),
      Reads.accepts (doStatement_reads_sendBlockText event address receiver guard
        (Text.stops_nil _))⟩
  · obtain ⟨a, ha, haccepts⟩ := exists_operand_value value hvalue
    have hx := operand_accepts_alias x (hs.aliased x.text)
    refine ⟨a, ha, Reads.accepts (setStatement_reads x ⟨_, _, haccepts⟩ event address guard),
      Reads.accepts (doStatement_reads_setBlockText hx haccepts event address guard
        (Text.stops_nil _)), ?_⟩
    rw [writeRule, Matcher.leaves, eventMatcher, Matcher.leaves_conjoin, List.flatMap_cons,
      Option.toList_map, List.flatMap_map, List.append_assoc, List.append_assoc]
    rfl

/-- An event that is passed on and an event that sets a state variable, in both ways of writing
them. -/
theorem shorthand_reads_as_block_switch :
    let s := (Symbols.initial false false).introduce (.state "x" (.bool false) none)
    let conditions : Matcher :=
      .and (.and (.eventCode 1) (.producerAddress 2)) (.eventCode EventCode.internalSystemTick)
    let sent : EventProcessor :=
      ⟨conditions, [⟨⟨.packet, .nil⟩, ⟨.packet, .cons (3 : Nat) .nil⟩, none⟩]⟩
    let written : EventProcessor :=
      ⟨.and conditions (.single .nothing (writeFilter 0 (.bool true))), []⟩
    ((sendStatement s.toScope).Accepts "send 1~u16 from 2~u16 to 3~u16 if match tick;" sent ∧
      (doStatement s.toScope).Accepts ("do \x7b match event 1~u16; match producer 2~u16;" ++
        " match tick; fire \x7b PacketExtractor(); PacketProducer(3~u16); \x7d \x7d") sent) ∧
    (setStatement s.toScope).Accepts "set x to true on 1~u16 from 2~u16 if match tick;" written ∧
      (doStatement s.toScope).Accepts ("do \x7b match event 1~u16; match producer 2~u16;" ++
        " match tick; match \x7b SetStateToConstFilter(x, true); \x7d \x7d") written := by
  intro s conditions sent written
  have hs : s.Reached :=
    .declare (d := .state "x" (.bool false) none) (.initial false false) rfl rfl
  let x : Accepted (stateVariable s.slots) := ⟨"x", 0, (stateVariable_portable _).accepts rfl⟩
  let value : Accepted (literalOrConstant s.constants) :=
    ⟨"true", .bool true, literalOrConstant_portable.accepts rfl⟩
  let event : Accepted (u16Operand s.constants) := ⟨"1~u16", 1, (operand_portable .u16).accepts rfl⟩
  let address : Accepted (u16Operand s.constants) :=
    ⟨"2~u16", 2, (operand_portable .u16).accepts rfl⟩
  let receiver : Accepted (u16Operand s.constants) :=
    ⟨"3~u16", 3, (operand_portable .u16).accepts rfl⟩
  let guard : Accepted (matcher s.toScope) :=
    ⟨"tick", .eventCode EventCode.internalSystemTick, matcher_portable.accepts rfl⟩
  obtain ⟨hsends, hsets⟩ := shorthand_reads_as_block
  obtain ⟨a, ha, hset, hdo, -⟩ := hsets s hs x value event address (some guard) nofun
  cases ha
  obtain ⟨hsend, hdo'⟩ := hsends s.toScope event address receiver (some guard)
  exact ⟨⟨hsend.of_eq (by decide +kernel), hdo'.of_eq (by decide +kernel)⟩,
    hset.of_eq (by decide +kernel), hdo.of_eq (by decide +kernel)⟩

end Parser

end EventRules
