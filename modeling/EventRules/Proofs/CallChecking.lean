/-
# How calls are checked

A call is the name of an item, operands in parentheses with commas between, and a semicolon; space
may stand around each operand and before each mark. If the name is known and every operand is one,
the call is read to its end before anything is checked. Then the number of operands is compared with
the number of parameters, and after that each operand is converted for its parameter, from left to
right.

So a wrong number of operands is reported at the name, even if an operand is wrong as well, and of
several wrong operands the leftmost one is reported, where it starts.
-/

import EventRules.Diagnostic.Render
import EventRules.Proofs.Portable

namespace EventRules

/-! ### Written calls -/

/-- Space, if there is any. -/
abbrev OptionalSpace :=
  { s : Text // ∀ ch ∈ s, isSpace ch }

/-- Space is no part of a name, so a name that does not go on behind it does not go on in it. -/
theorem OptionalSpace.stops_append (s : OptionalSpace) {t : Text} (ht : t.Stops isNameChar) :
    (s.1 ++ t).Stops isNameChar := by
  obtain ⟨s, hs⟩ := s
  cases s with
  | nil => exact ht
  | cons ch s =>
    have hspace := hs ch (List.mem_cons_self ..)
    exact Text.stops_cons.2 (Alignment.solid_isNameChar.not_of_isSpace hspace)

/-- An operand with space around it. -/
structure SpacedOperand (constants : Table Text Literal) extends
    Parser.Accepted (Parser.literalOrConstant constants) where
  before : OptionalSpace
  after : OptionalSpace

/-- A call of a known item, with operands of any number and type. -/
structure WrittenCall (constants : Table Text Literal) (ν : Type) where
  name : ν
  gap : OptionalSpace
  opening : OptionalSpace
  operands : List (SpacedOperand constants)
  ending : OptionalSpace

variable {constants : Table Text Literal} {c d : Cursor}

namespace SpacedOperand

/-- The operand and the space around it. -/
def whole (k : SpacedOperand constants) : Text :=
  k.before.1 ++ (k.text ++ k.after.1)

/-- The operands as written arguments, if the first of them, with its space, starts at the
cursor. -/
def located (c : Cursor) : List (SpacedOperand constants) → List WrittenArgument
  | [] => []
  | k :: ks =>
    ⟨c.advance k.before.1.length, k.value⟩ :: located (c.advance (k.whole.length + 1)) ks

/-- Operands with a comma after each. -/
def listed (ks : List (SpacedOperand constants)) : Text :=
  ks.flatMap fun k => k.whole ++ [',']

@[simp]
theorem length_located (c : Cursor) (ks : List (SpacedOperand constants)) :
    (located c ks).length = ks.length := by
  induction ks generalizing c with
  | nil => rfl
  | cons k ks ih => rw [located, List.length_cons, List.length_cons, ih]

/-- Operands with their places are the operands. -/
theorem map_literal_located (c : Cursor) (ks : List (SpacedOperand constants)) :
    (located c ks).map (·.literal) = ks.map (·.value) := by
  induction ks generalizing c with
  | nil => rfl
  | cons k ks ih => rw [located, List.map_cons, List.map_cons, ih]

/-- Each operand is located behind the operands before it, their commas and its own space. -/
theorem located_append_cons (c : Cursor) (earlier : List (SpacedOperand constants))
    (k : SpacedOperand constants) (later : List (SpacedOperand constants)) :
    ∃ rest, located c (earlier ++ k :: later) =
      located c earlier ++ ⟨c.advance (listed earlier ++ k.before.1).length, k.value⟩ :: rest := by
  induction earlier generalizing c with
  | nil => exact ⟨_, rfl⟩
  | cons first earlier ih =>
    obtain ⟨rest, hrest⟩ := ih (c.advance (first.whole.length + 1))
    have hlength : first.whole.length + 1 + (listed earlier ++ k.before.1).length =
        (listed (first :: earlier) ++ k.before.1).length := by
      simp only [listed, List.flatMap_cons, List.length_append, List.length_singleton]
      omega
    refine ⟨rest, ?_⟩
    rw [List.cons_append, located, hrest, located, Cursor.advance_advance, hlength]
    rfl

end SpacedOperand

namespace WrittenCall

variable {ν : Type} [ItemName ν]

/-- What stands before the first operand and its space. -/
def head (call : WrittenCall constants ν) : Text :=
  ItemName.spelling call.name ++ (call.gap.1 ++ '(' :: call.opening.1)

/-- The text of a call. -/
def text (call : WrittenCall constants ν) : Text :=
  call.head ++ (Text.join "," (call.operands.map SpacedOperand.whole) ++
    ')' :: (call.ending.1 ++ [';']))

/-- The text before an operand that follows the given ones. -/
def textBefore (call : WrittenCall constants ν) (earlier : List (SpacedOperand constants))
    (k : SpacedOperand constants) : Text :=
  call.head ++ (SpacedOperand.listed earlier ++ k.before.1)

/-- The arguments of a call that starts at the cursor. -/
def written (call : WrittenCall constants ν) (c : Cursor) : List WrittenArgument :=
  SpacedOperand.located (c.advance call.head.length) call.operands

end WrittenCall

/-! ### Reading the arguments -/

namespace SpacedOperand

variable {k : SpacedOperand constants} {ks : List (SpacedOperand constants)}

theorem advance_whole (k : SpacedOperand constants) (c : Cursor) :
    ((c.advance k.before.1.length).advance k.text.length).advance (k.after.1.length + 1) =
      c.advance (k.whole.length + 1) := by
  rw [Cursor.advance_advance, Cursor.advance_advance, whole, List.length_append,
    List.length_append]
  simp only [Nat.add_assoc]

theorem join_whole (k : SpacedOperand constants) (ks : List (SpacedOperand constants)) :
    Text.join "," ((k :: ks).map whole) = k.whole ++ ks.flatMap fun k => ',' :: k.whole := by
  rw [List.map_cons, Text.join_cons, List.flatMap_map]
  rfl

/-- Up to an operand, operands with commas between are operands with a comma after each. -/
theorem join_append_cons (earlier : List (SpacedOperand constants))
    (k : SpacedOperand constants) (later : List (SpacedOperand constants)) :
    ∃ after, Text.join "," ((earlier ++ k :: later).map whole) =
      listed earlier ++ (k.before.1 ++ (k.text ++ after)) := by
  induction earlier with
  | nil =>
    refine ⟨k.after.1 ++ later.flatMap fun k => ',' :: k.whole, ?_⟩
    rw [List.nil_append, join_whole, whole]
    simp [listed]
  | cons first earlier ih =>
    obtain ⟨after, hafter⟩ := ih
    refine ⟨after, ?_⟩
    obtain ⟨next, rest, hnext⟩ := List.exists_cons_of_ne_nil
      (List.append_ne_nil_of_right_ne_nil earlier (List.cons_ne_nil k later))
    rw [List.cons_append, List.map_cons, hnext, List.map_cons, Text.join_cons_cons,
      ← List.map_cons, ← hnext, hafter]
    simp [listed]

/-- No name goes on behind an operand. -/
theorem stops_rest {s : OptionalSpace}
    (h : c.Crosses (s.1 ++ (ks.flatMap (fun k => ',' :: k.whole) ++ [')'])) d) :
    c.rest.Stops isNameChar := by
  rw [h.rest_eq, List.append_assoc]
  refine s.stops_append ?_
  cases ks with
  | nil => exact Text.stops_cons.2 (by decide)
  | cons k ks => exact Text.stops_cons.2 (by decide)

theorem operandAt (k : SpacedOperand constants) (h : c.Crosses k.text d)
    (hd : d.rest.Stops isNameChar) : OperandAt constants c k.value d :=
  (Parser.literalOrConstant_portable (k.accepts [])).of_crosses (Cursor.crosses_source [] k.text)
    h hd

end SpacedOperand

namespace Parser

/-- The operands behind the first one are read up to the closing parenthesis. -/
theorem moreElements_located {s : OptionalSpace} {ks : List (SpacedOperand constants)}
    (h : c.Crosses (s.1 ++ (ks.flatMap (fun k => ',' :: k.whole) ++ [')'])) d) :
    ∃ e, e.Mark ')' d ∧ (moreElements "," (writtenArgument constants)).outcome c =
      .ok (SpacedOperand.located (c.advance (s.1.length + 1)) ks, e) := by
  induction ks generalizing c s with
  | nil =>
    obtain ⟨hspace, hclose⟩ := h.split
    have hmark : c.Mark ')' d := ⟨_, ⟨s.1, s.2, hspace⟩, hclose⟩
    refine ⟨c, hmark, ?_⟩
    rw [outcome_moreElements, if_neg]
    · rfl
    · rw [((Cursor.mark_iff (by decide)).1 hmark).1]
      decide
  | cons k ks ih =>
    have hparts : c.Crosses (s.1 ++ ([','] ++ (k.before.1 ++ (k.text ++ (k.after.1 ++
        (ks.flatMap (fun k => ',' :: k.whole) ++ [')'])))))) d := by
      simpa [SpacedOperand.whole] using h
    obtain ⟨hspace, hparts⟩ := hparts.split
    obtain ⟨hcomma, hparts⟩ := hparts.split
    obtain ⟨hbefore, hparts⟩ := hparts.split
    obtain ⟨htext, hrest⟩ := hparts.split
    have hl := k.operandAt htext (SpacedOperand.stops_rest hrest)
    obtain ⟨e, hmark, hmore⟩ := ih hrest
    refine ⟨e, hmark, ?_⟩
    rw [moreElements_comma ⟨_, ⟨s.1, s.2, hspace⟩, hcomma⟩ ⟨_, k.before.2, hbefore⟩ hl, hmore,
      ok_bind, SpacedOperand.located, k.advance_whole, ← Cursor.advance_advance c s.1.length 1]
    rfl

/-- A list of operands is read with the place of each. -/
theorem argumentList_located {s : OptionalSpace} {ks : List (SpacedOperand constants)}
    (h : c.Crosses ('(' :: (s.1 ++ (Text.join "," (ks.map SpacedOperand.whole) ++ [')']))) d) :
    (argumentList constants).outcome c =
      .ok (SpacedOperand.located (c.advance (s.1.length + 1)) ks, d) := by
  rw [argumentList_eq_ok_iff]
  obtain ⟨hopen, h⟩ := Cursor.Crosses.split (t := ['(']) h
  obtain ⟨hspace, h⟩ := h.split
  cases ks with
  | nil =>
    have hmark : (c.advance 1).Mark ')' d := ⟨_, ⟨s.1, s.2, hspace⟩, h⟩
    obtain ⟨hpeek, -⟩ := (Cursor.mark_iff (by decide)).1 hmark
    refine ⟨c.advance 1, (c.advance 1).skipSpace, hopen, ?_, ?_⟩
    · rwa [Cursor.mark_iff (by decide), Cursor.skipSpace_skipSpace, ← Cursor.mark_iff (by decide)]
    · rw [if_pos (show (c.advance 1).skipSpace.peek = ")" from hpeek)]
      exact ⟨rfl, rfl⟩
  | cons k ks =>
    have hstart : (c.advance 1).advance s.1.length = c.advance (s.1.length + 1) := by
      rw [Cursor.advance_advance, Nat.add_comm]
    have hparts : (c.advance (s.1.length + 1)).Crosses (k.before.1 ++ (k.text ++ (k.after.1 ++
        (ks.flatMap (fun k => ',' :: k.whole) ++ [')'])))) d := by
      rw [SpacedOperand.join_whole] at h
      simpa [SpacedOperand.whole, ← hstart] using h
    obtain ⟨hbefore, hparts⟩ := hparts.split
    obtain ⟨htext, hrest⟩ := hparts.split
    have hl := k.operandAt htext (SpacedOperand.stops_rest hrest)
    obtain ⟨e, hmark, hmore⟩ := moreElements_located hrest
    have hblanks : (c.advance 1).Blanks ((c.advance (s.1.length + 1)).advance k.before.1.length) :=
      ⟨s.1 ++ k.before.1, List.forall_mem_append.2 ⟨s.2, k.before.2⟩,
        Cursor.Crosses.trans (d := c.advance (s.1.length + 1)) (hstart ▸ hspace) hbefore⟩
    refine ⟨c.advance 1, e, hopen, hmark, ?_⟩
    rw [hblanks.skipSpace_eq hl.stops, if_neg hl.peek_ne]
    rw [k.advance_whole] at hmore
    exact ⟨_, _, _, rfl, writtenArgument_eq_ok_iff.2 ⟨rfl, hl⟩, hmore⟩

end Parser

/-! ### Converting the arguments -/

section Conversion

variable {ps qs : List ParameterType} {q : ParameterType} {written : List WrittenArgument}

/-- Each literal converts to an argument for its parameter. -/
def Converts (ls : List Literal) (ps : List ParameterType) : Prop :=
  List.Forall₂ (fun l p => ∃ a, ParameterType.convert p l = .ok a) ls ps

/-- Literals that convert one by one make up arguments. -/
theorem Converts.exists_arguments {ls : List Literal} (h : Converts ls ps) :
    ∃ as : Arguments ps, List.Forall₂ (fun l a => a.1.convert l = .ok a.2) ls as.toList := by
  induction h with
  | nil => exact ⟨.nil, .nil⟩
  | cons hfirst _ ih =>
    obtain ⟨a, ha⟩ := hfirst
    obtain ⟨as, has⟩ := ih
    exact ⟨.cons a as, .cons ha has⟩

/-- The leftmost argument that does not convert is the one that is reported. -/
theorem Arguments.convert_of_refused {miscount e : Diagnostic} {params : List ParameterType}
    {before after : List WrittenArgument} {w : WrittenArgument} (hparams : params = ps ++ q :: qs)
    (hbefore : Converts (before.map (·.literal)) ps)
    (hrefused : q.cast w.literal (some w.location) = .error e) :
    Arguments.convert miscount params (before ++ w :: after) = .error e := by
  subst hparams
  induction ps generalizing before with
  | nil =>
    obtain rfl := List.map_eq_nil_iff.1 (List.forall₂_nil_right_iff.1 hbefore)
    rw [List.nil_append, List.nil_append, convert, hrefused]
    rfl
  | cons p ps ih =>
    cases before with
    | nil => cases hbefore
    | cons first before =>
      obtain ⟨⟨a, ha⟩, hrest⟩ := List.forall₂_cons.1 hbefore
      have hcast : p.cast first.literal (some first.location) = .ok a :=
        ParameterType.cast_eq_ok_iff.2 ha
      rw [List.cons_append, List.cons_append, convert, hcast, ok_bind, ih hrest]
      rfl

/-- Literals that convert to the parameters of an item make the item. -/
theorem Item.construct_of_converts {ν : Type} [ItemName ν] (start : Cursor) {name : ν}
    (h : Converts (written.map (·.literal)) (ItemName.parameters name)) :
    ∃ i : Item ν, Item.construct start name written = .ok i ∧ i.name = name ∧
      List.Forall₂ (fun l a => a.1.convert l = .ok a.2) (written.map (·.literal))
        i.arguments.toList := by
  obtain ⟨as, has⟩ := h.exists_arguments
  exact ⟨⟨name, as⟩, Item.construct_eq_ok_iff.2 ⟨rfl, has⟩, rfl, has⟩

end Conversion

/-! ### Calls -/

namespace WrittenCall

variable {ν : Type} [ItemName ν]

/-- Before an operand stands the text before it. -/
theorem text_eq (call : WrittenCall constants ν) {earlier later : List (SpacedOperand constants)}
    {k : SpacedOperand constants} (h : call.operands = earlier ++ k :: later) :
    ∃ after, call.text = call.textBefore earlier k ++ (k.text ++ after) := by
  obtain ⟨after, hafter⟩ := SpacedOperand.join_append_cons earlier k later
  refine ⟨after ++ ')' :: (call.ending.1 ++ [';']), ?_⟩
  rw [text, h, hafter, textBefore]
  simp

/-- Of operands before and after a given one, the given one is located behind the text before
it. -/
theorem written_eq (call : WrittenCall constants ν) (c : Cursor)
    {earlier later : List (SpacedOperand constants)} {k : SpacedOperand constants}
    (h : call.operands = earlier ++ k :: later) :
    ∃ before after, call.written c =
      before ++ ⟨c.advance (call.textBefore earlier k).length, k.value⟩ :: after ∧
        before.map (·.literal) = earlier.map (·.value) := by
  obtain ⟨after, hafter⟩ :=
    SpacedOperand.located_append_cons (c.advance call.head.length) earlier k later
  refine ⟨_, after, ?_, SpacedOperand.map_literal_located (c.advance call.head.length) earlier⟩
  rw [written, h, hafter, textBefore, Cursor.advance_advance, ← List.length_append]

end WrittenCall

namespace Parser

variable {ν : Type} [ItemName ν]

/-- A written call is read to its end, and then its arguments are checked. -/
theorem itemCall_of_crosses [Spelled ν] {unknown : Problem} {call : WrittenCall constants ν}
    (h : c.Crosses call.text d) :
    (itemCall ν unknown constants).outcome c =
      ((Item.construct c call.name (call.written c)).mapError
        (Failure.map Diagnostic.escalate)).map (·, d) := by
  have hparts : c.Crosses (ItemName.spelling call.name ++ (call.gap.1 ++
      (('(' :: (call.opening.1 ++ (Text.join "," (call.operands.map SpacedOperand.whole) ++
        [')']))) ++ (call.ending.1 ++ [';'])))) d := by
    simpa [WrittenCall.text, WrittenCall.head] using h
  obtain ⟨hword, hparts⟩ := hparts.split
  obtain ⟨hgap, hparts⟩ := hparts.split
  obtain ⟨harguments, hparts⟩ := hparts.split
  obtain ⟨hending, hsemicolon⟩ := hparts.split
  have hstops : (c.advance (ItemName.spelling call.name).length).rest.Stops isNameChar := by
    rw [hgap.rest_eq, harguments.rest_eq]
    exact call.gap.stops_append (Text.stops_cons.2 (by decide))
  have hname := name_eq_ok_iff.2
    ⟨Spelled.isName call.name, Cursor.word_iff.1 ⟨hword, hstops⟩⟩
  have hskip := Cursor.Blanks.skipSpace_eq ⟨_, call.gap.2, hgap⟩ (by
    rw [harguments.rest_eq]
    exact Text.stops_cons.2 (by decide))
  have hend := (terminator_eq_ok_iff (x := ())).2 ⟨_, ⟨_, call.ending.2, hending⟩, hsemicolon⟩
  have hwritten : SpacedOperand.located (((c.advance (ItemName.spelling call.name).length).advance
      call.gap.1.length).advance (call.opening.1.length + 1)) call.operands = call.written c := by
    rw [WrittenCall.written, WrittenCall.head, List.length_append, List.length_append,
      List.length_cons, Cursor.advance_advance, Cursor.advance_advance]
  rw [itemCall, outcome_bind, outcome_here, ok_bind, outcome_bind, hname, ok_bind]
  dsimp only
  rw [Spelled.ofSpelling?_spelling]
  dsimp only
  rw [outcome_bind, outcome_committed, outcome_bind, outcome_skipSpace, ok_bind]
  dsimp only
  rw [hskip, outcome_bind, argumentList_located harguments, ok_bind, outcome_bind, hend, ok_bind,
    outcome_ofExcept, hwritten]
  cases Item.construct c call.name (call.written c) <;> rfl

/-- A name that no item of the sort has is reported as unknown, whatever follows it. -/
theorem itemCall_of_unknown {unknown : Problem} {word : Text} (hname : word.IsName)
    (hword : c.Word word d) (hother : ∀ n : ν, ItemName.spelling n ≠ word) :
    (itemCall ν unknown constants).outcome c =
      .error (Diagnostic.finding
        { location := some c, problem := unknown, length := some word.length }) := by
  have hnone : ItemName.ofSpelling? ν word = none := by
    rw [Option.eq_none_iff_forall_ne_some]
    exact fun n hn => hother n (ItemName.spelling_of_ofSpelling? hn)
  rw [itemCall, outcome_bind, outcome_here, ok_bind, outcome_bind,
    name_eq_ok_iff.2 ⟨hname, Cursor.word_iff.1 hword⟩, ok_bind]
  dsimp only
  rw [hnone]
  rfl

/-- The parser checks calls of one sort of items: the number of operands first, and then the
operands from left to right. -/
structure ChecksCalls (p : Parser (Item ν)) (constants : Table Text Literal)
    (unknown : Problem) : Prop where
  /-- Operands of a wrong number are reported at the name, over the length of the name. -/
  miscount {call : WrittenCall constants ν} {c d : Cursor} (hcross : c.Crosses call.text d)
    (hcount : call.operands.length ≠ (ItemName.parameters call.name).length) :
    p.outcome c = .error (Diagnostic.escalate (.expectedIn c (ItemName.spelling call.name).length
      (.argumentCount (ItemName.parameters call.name).length call.operands.length)))
  /-- Operands that all convert give the item with their arguments, and the call ends behind its
  semicolon. -/
  built {call : WrittenCall constants ν} {c d : Cursor} (hcross : c.Crosses call.text d)
    (hconverts : Converts (call.operands.map (·.value)) (ItemName.parameters call.name)) :
    ∃ i : Item ν, p.outcome c = .ok (i, d) ∧ i.name = call.name ∧
      List.Forall₂ (fun l a => a.1.convert l = .ok a.2) (call.operands.map (·.value))
        i.arguments.toList
  /-- If an operand does not convert, the first such is reported, at its first character. -/
  refused {call : WrittenCall constants ν} {c d : Cursor} (hcross : c.Crosses call.text d)
    (hcount : call.operands.length = (ItemName.parameters call.name).length)
    {earlier later : List (SpacedOperand constants)} {k : SpacedOperand constants}
    (hoperands : call.operands = earlier ++ k :: later)
    {ps qs : List ParameterType} {q : ParameterType}
    (hparameters : ItemName.parameters call.name = ps ++ q :: qs)
    (hearlier : Converts (earlier.map (·.value)) ps) {e : Diagnostic}
    (hrefused : q.cast k.value (some (c.advance (call.textBefore earlier k).length)) = .error e) :
    (∃ after, call.text = call.textBefore earlier k ++ (k.text ++ after)) ∧
      p.outcome c = .error e.escalate
  /-- Another name is reported as unknown, with the name as the text at fault. -/
  unknown_name {word : Text} {c d : Cursor} (hname : word.IsName) (hword : c.Word word d)
    (hother : ∀ n : ν, ItemName.spelling n ≠ word) :
    ∃ f : Finding, p.outcome c = .error (Diagnostic.finding f) ∧ f.problem = unknown ∧
      f.severity = .recoverable ∧ f.location = some c ∧ f.fragment = word

/-- A call counts its operands, converts them from left to right, and reports a name that is not
known. -/
theorem itemCall_checksCalls (ν : Type) [ItemName ν] [Spelled ν] (unknown : Problem)
    (constants : Table Text Literal) :
    (itemCall ν unknown constants).ChecksCalls constants unknown where
  miscount {call c d} hcross hcount := by
    have hlength : (call.written c).length = call.operands.length :=
      SpacedOperand.length_located _ _
    rw [itemCall_of_crosses hcross, Item.construct, hlength, if_neg hcount]
    rfl
  built {call c d} hcross hconverts := by
    have hliterals : (call.written c).map (·.literal) = call.operands.map (·.value) :=
      SpacedOperand.map_literal_located _ _
    rw [← hliterals] at hconverts ⊢
    obtain ⟨i, hi, hname, harguments⟩ := Item.construct_of_converts c hconverts
    exact ⟨i, by rw [itemCall_of_crosses hcross, hi]; rfl, hname, harguments⟩
  refused {call c d} hcross hcount earlier later k hoperands ps qs q hparameters hearlier e
      hrefused := by
    refine ⟨call.text_eq hoperands, ?_⟩
    have hlength : (call.written c).length = (ItemName.parameters call.name).length :=
      (SpacedOperand.length_located _ _).trans hcount
    obtain ⟨before, after, hwritten, hliterals⟩ := call.written_eq c hoperands
    rw [itemCall_of_crosses hcross, Item.construct, if_pos hlength, hwritten,
      Arguments.convert_of_refused hparameters (hliterals ▸ hearlier) hrefused]
    rfl
  unknown_name {word c d} hname hword hother := by
    refine ⟨_, itemCall_of_unknown hname hword hother, rfl, rfl, rfl, ?_⟩
    rw [Finding.fragment]
    dsimp only
    rw [hword.1.rest_eq, List.take_left]

/-- Calls of extractors, filters and producers are checked in the same order, each against the
parameters of its name. -/
theorem item_calls_checked (constants : Table Text Literal) :
    (extractorCall constants).ChecksCalls constants .unknownExtractor ∧
      (filterCall constants).ChecksCalls constants .unknownFilter ∧
      (producerCall constants).ChecksCalls constants .unknownProducer :=
  ⟨itemCall_checksCalls _ _ _, itemCall_checksCalls _ _ _, itemCall_checksCalls _ _ _⟩

/-- The operand `true` after one space. -/
def spacedTrue : SpacedOperand Table.empty where
  text := "true"
  value := .bool true
  accepts := literalOrConstant_portable.accepts rfl
  before := ⟨[' '], isSpace_of_mem_space⟩
  after := ⟨[], List.forall_mem_nil _⟩

/-- A call of the filter that flips a state, with the given operands. -/
def flipCall (operands : List (SpacedOperand Table.empty)) :
    WrittenCall Table.empty FilterName where
  name := .flipState
  gap := ⟨[], List.forall_mem_nil _⟩
  opening := ⟨[], List.forall_mem_nil _⟩
  operands := operands
  ending := ⟨[' '], isSpace_of_mem_space⟩

/-- One operand of a wrong type is reported where it starts, and two of them at the name. -/
theorem item_calls_checked_flip :
    let one := (Source.mk [] (flipCall [spacedTrue]).text).start
    let two := (Source.mk [] (flipCall [spacedTrue, spacedTrue]).text).start
    let call := filterCall (Table.empty : Table Text Literal)
    call.outcome one = .error (Diagnostic.finding {
      location := some (one.advance 17)
      problem := .castNotAllowed "bool" "u32"
      severity := .fatal }) ∧
    call.outcome two = .error (Diagnostic.finding {
      location := some two
      problem := .expected (.argumentCount 1 2)
      length := some 15
      severity := .fatal }) := by
  intro one two call
  obtain ⟨-, hfilter, -⟩ := item_calls_checked Table.empty
  have hone : one.Crosses (flipCall [spacedTrue]).text _ := Cursor.crosses_source [] _
  have htwo : two.Crosses (flipCall [spacedTrue, spacedTrue]).text _ := Cursor.crosses_source [] _
  have hoperands : (flipCall [spacedTrue]).operands = [] ++ spacedTrue :: [] := rfl
  have hparameters : ItemName.parameters (flipCall [spacedTrue]).name = [] ++ .u32 :: [] := rfl
  exact ⟨(hfilter.refused hone rfl hoperands hparameters .nil rfl).2,
    hfilter.miscount htwo (by decide)⟩

end Parser

end EventRules
