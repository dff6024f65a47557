/-
# Statements fail orderly

Every parser of the grammar, up to that of a statement, is orderly from any position on. Diagnostics
about text that has been read before are the point of this: a literal whose digits or suffix are
wrong, an argument that does not convert, and a call with the wrong number of arguments are reported
where they were read, and no further than the text goes. So is a declaration of a name or an index
that is taken: it stands right behind the heading of its statement.

The failure of a statement is always fatal.
-/

import EventRules.Proofs.Declare
import EventRules.Proofs.Orderly
import EventRules.Proofs.Spelling

namespace EventRules

variable {b c : Cursor}

/-! ### Literals -/

/-- The digits and the suffix of a form stand where it says, from `b` on. -/
def LiteralForm.SpannedFrom (b : Cursor) : LiteralForm → Prop
  | bool _ | string _ => True
  | integer digitsAt digits suffixAt suffix =>
    b.Spans digitsAt digits.length ∧ b.Spans suffixAt suffix.length
  | colour start digits => b.Spans start (digits.length + 1)

/-- A check that fails points at the digits or at the suffix. -/
theorem LiteralForm.check_orderly {form : LiteralForm} {d : Diagnostic} (hform : form.SpannedFrom b)
    (h : form.check = .error d) : d.Orderly (Finding.ReadFrom b) := by
  cases form with
  | bool _ | string _ => cases h
  | integer digitsAt digits suffixAt suffix =>
    rw [check] at h
    split at h
    · cases h
      exact Diagnostic.expectedIn_orderly hform.2 _
    · split at h
      · cases h
        exact Diagnostic.expectedIn_orderly hform.1 _
      · split at h
        · cases h
        · cases h
          exact Diagnostic.expectedIn_orderly hform.1 _
  | colour start digits =>
    rw [check] at h
    split at h
    · cases h
    · cases h
      exact Diagnostic.expectedIn_orderly hform _

/-- There is a conversion, and if it fails, it points at the literal. -/
theorem ParameterType.cast_orderly {p : ParameterType} {l : Literal} {e : Failure}
    (hc : b.Leads c) (h : p.cast l (some c) = .error e) : e.OrderlyFrom b := by
  rw [cast_eq] at h
  obtain ⟨m, -, rfl⟩ := mapError_eq_error.1 h
  cases m <;> exact Diagnostic.finding_orderly hc nofun

namespace Parser

theorem booleanForm_orderly : booleanForm.Orderly b (LiteralForm.SpannedFrom b) := by
  refine .bindHere fun c hc => ?_
  split <;> exact (keyword_orderly _ hc).bind fun _ _ => .pure trivial

theorem integerForm_orderly (k : CharClass) :
    (integerForm k).Orderly b (LiteralForm.SpannedFrom b) :=
  .bindHere fun _ hdigitsAt => (run1_orderlyAt k hdigitsAt).bind fun _ hdigits =>
    .bind (symbol_orderly _) fun _ _ => .bindHere fun _ hsuffixAt =>
      (run1_orderlyAt _ hsuffixAt).bind fun _ hsuffix => .pure ⟨hdigits, hsuffix⟩

theorem stringForm_orderly : stringForm.Orderly b (LiteralForm.SpannedFrom b) :=
  .bind (symbol_orderly _) fun _ _ => .bind (takeUntil_orderly _) fun _ _ =>
    .bind (symbol_orderly _) fun _ _ => .pure trivial

/-- The hash is part of a colour, and counts for its length. -/
theorem colourForm_orderly : colourForm.Orderly b (LiteralForm.SpannedFrom b) := by
  refine .bindHere fun start hstart => (symbol_orderly _ hstart).bindAt fun _ c' hhash hlead _ =>
    (run1_orderlyAt _ hlead).bind fun digits hdigits => .pure ⟨hstart, ?_⟩
  obtain ⟨hpeek, rfl⟩ := symbol_eq_ok hhash
  have hpos : 0 < start.rest.length := by
    refine List.length_pos_of_ne_nil fun hnil => ?_
    rw [Cursor.peek, hnil] at hpeek
    cases hpeek
  have hle := hdigits.length_le
  rw [Cursor.rest_advance, List.length_drop] at hle
  omega

/-- Only a failure that is not fatal becomes the reason for another. -/
theorem literalForm_orderly : literalForm.Orderly b (LiteralForm.SpannedFrom b) := by
  have halt : (alt literalForms).Orderly b (LiteralForm.SpannedFrom b) := by
    refine .alt (by decide) ?_
    simp only [literalForms, List.forall_mem_cons]
    exact ⟨booleanForm_orderly, integerForm_orderly _, integerForm_orderly _, stringForm_orderly,
      colourForm_orderly, List.forall_mem_nil _⟩
  intro c hc
  rw [OrderlyAt, outcome_literalForm]
  refine (halt hc : OrderlyOutcome b _ _).mapError fun d hd => ?_
  split
  · exact hd
  · next hfatal => exact Diagnostic.expectedBecause_orderly hc _ hd (Bool.eq_false_iff.2 hfatal)

theorem literal_orderly : literal.OrderlyFrom b := by
  refine .bind literalForm_orderly fun _ hform => .ofExcept (fun _ _ => trivial) fun e h => ?_
  obtain ⟨d, hcheck, rfl⟩ := mapError_eq_error.1 h
  exact LiteralForm.check_orderly hform hcheck

/-- A name that is no constant is read again, as a literal. -/
theorem literalOrConstant_orderly (constants : Table Text Literal) :
    (literalOrConstant constants).OrderlyFrom b := by
  intro c hc
  have hname : OrderlyOutcome b _ (name.outcome c) := name_orderlyAt hc
  rw [OrderlyAt, outcome_literalOrConstant]
  generalize name.outcome c = x at hname ⊢
  cases x with
  | error e => exact literal_orderly hc
  | ok r =>
    dsimp only
    split
    · exact ⟨hname.1, trivial⟩
    · exact literal_orderly hc

/-- A missing name is the reason given for a missing state variable, and a name without a slot is
reported as a whole. -/
theorem stateVariable_orderly (slots : Table Text Nat) : (stateVariable slots).OrderlyFrom b := by
  intro c hc
  have hname : OrderlyOutcome b _ (name.outcome c) := name_orderlyAt hc
  rw [OrderlyAt, outcome_stateVariable]
  cases hx : name.outcome c with
  | error e =>
    rw [hx] at hname
    obtain ⟨d, rfl, hfatal⟩ := Failure.exists_diagnostic (isFatal_of_name hx)
    exact Diagnostic.expectedBecause_orderly hc _ hname hfatal
  | ok r =>
    rw [hx] at hname
    dsimp only
    split
    · exact ⟨hname.1, trivial⟩
    · exact Diagnostic.expectedIn_orderly hname.2 _

theorem operand_orderly (constants : Table Text Literal) (p : ParameterType) :
    (operand constants p).OrderlyFrom b :=
  .bindHere fun _ hc => (literalOrConstant_orderly constants hc).bind fun _ _ =>
    .ofExcept (fun _ _ => trivial) fun _ h => p.cast_orderly hc h

end Parser

/-! ### Arguments and items -/

/-- Conversions that fail point at an argument, or as the miscount does. -/
theorem Arguments.convert_orderly {miscount : Diagnostic} {e : Failure} {ps : List ParameterType}
    {written : List WrittenArgument} (hmiscount : miscount.Orderly (Finding.ReadFrom b))
    (hwritten : ∀ a ∈ written, b.Leads a.location)
    (h : Arguments.convert miscount ps written = .error e) : e.OrderlyFrom b := by
  induction ps generalizing written with
  | nil =>
    cases written with
    | nil => cases h
    | cons w written =>
      cases h
      exact hmiscount
  | cons p ps ih =>
    cases written with
    | nil =>
      cases h
      exact hmiscount
    | cons w written =>
      rw [List.forall_mem_cons] at hwritten
      rcases bind_eq_error.1 h with hcast | ⟨_, -, h⟩
      · exact p.cast_orderly hwritten.1 hcast
      · rcases bind_eq_error.1 h with hrest | ⟨_, -, h⟩
        · exact ih hwritten.2 hrest
        · cases h

/-- A name that is applied to wrong arguments is reported at the name or at an argument. -/
theorem Item.construct_orderly {ν : Type} [ItemName ν] {start : Cursor} {name : ν}
    {written : List WrittenArgument} {e : Failure}
    (hstart : b.Spans start (ItemName.spelling name).length)
    (hwritten : ∀ a ∈ written, b.Leads a.location)
    (h : Item.construct start name written = .error e) : e.OrderlyFrom b := by
  have hmiscount := fun e => Diagnostic.expectedIn_orderly hstart e
  rw [construct] at h
  split at h
  · rcases bind_eq_error.1 h with hconvert | ⟨_, -, h⟩
    · exact Arguments.convert_orderly (hmiscount _) hwritten hconvert
    · cases h
  · cases h
    exact hmiscount _

namespace Parser

/-- The arguments remember places behind the start. -/
theorem argumentList_orderly (constants : Table Text Literal) :
    (argumentList constants).Orderly b fun written => ∀ a ∈ written, b.Leads a.location :=
  list_orderly _ <| .bindHere fun _ hc =>
    (literalOrConstant_orderly constants hc).bind fun _ _ => .pure hc

/-- An unknown name is reported as a whole, and the checks of a call report its name or an operand.
-/
theorem itemCall_orderly (ν : Type) [ItemName ν] (unknown : Problem)
    (hunknown : unknown ≠ .duplicateName) (constants : Table Text Literal) :
    (itemCall ν unknown constants).OrderlyFrom b := by
  refine .bindHere fun start hstart => (name_orderlyAt hstart).bind fun spelling hspelling => ?_
  split
  · exact .fail (.finding ⟨⟨start, rfl, hspelling⟩, hunknown⟩)
  · next itemName hname =>
    rw [← ItemName.spelling_of_ofSpelling? hname] at hspelling
    refine .bind (V := fun _ => True) (.committed ?_) fun _ _ =>
      .bind (.note _) fun _ _ => .pure trivial
    exact .bind skipSpace_orderly fun _ _ =>
      .bind (argumentList_orderly constants) fun _ hwritten =>
        .bind terminator_orderly fun _ _ => .ofExcept (fun _ _ => trivial) fun _ h =>
          Item.construct_orderly hspelling hwritten h

theorem optionalExtractor_orderly (constants : Table Text Literal) :
    (optionalExtractor constants).OrderlyFrom b :=
  .bind (.optional (itemCall_orderly _ .unknownExtractor nofun constants)) fun _ _ => .pure trivial

/-! ### Matchers -/

theorem numberForm_orderly (constants : Table Text Literal) (word : Text)
    (matcher : Nat → Matcher) : (numberForm constants word matcher).OrderlyFrom b :=
  .bind (keyword_orderly _) fun _ _ => .committed <| .bind space_orderly fun _ _ =>
    .bind (operand_orderly constants .u16) fun _ _ => .pure trivial

theorem blockForm_orderly (constants : Table Text Literal) : (blockForm constants).OrderlyFrom b :=
  .bind (symbol_orderly _) fun _ _ => .committed <| .bind skipSpace_orderly fun _ _ =>
    .bind (optionalExtractor_orderly constants) fun _ _ => .bind skipSpace_orderly fun _ _ =>
      .bind (itemCall_orderly _ .unknownFilter nofun constants) fun _ _ =>
        .bind (nextSymbol_orderly _) fun _ _ => .pure trivial

section

variable {inner : Parser Matcher} (hinner : inner.OrderlyFrom b)
include hinner

theorem unaryForm_orderly (word : Text) (build : Matcher → Matcher) :
    (unaryForm inner word build).OrderlyFrom b :=
  .bind (keyword_orderly _) fun _ _ => .committed <| .bind (nextSymbol_orderly _) fun _ _ =>
    .bind skipSpace_orderly fun _ _ => .bind hinner fun _ _ =>
      .bind (nextSymbol_orderly _) fun _ _ => .pure trivial

theorem binaryForm_orderly (word : Text) (build : Matcher → Matcher → Matcher) :
    (binaryForm inner word build).OrderlyFrom b :=
  .bind (keyword_orderly _) fun _ _ => .committed <| .bind (nextSymbol_orderly _) fun _ _ =>
    .bind skipSpace_orderly fun _ _ => .bind hinner fun _ _ =>
      .bind (nextSymbol_orderly _) fun _ _ => .bind skipSpace_orderly fun _ _ =>
        .bind hinner fun _ _ => .bind (nextSymbol_orderly _) fun _ _ => .pure trivial

theorem matcherForm_orderly (constants : Table Text Literal) (form : MatcherForm) :
    (matcherForm constants inner form).OrderlyFrom b := by
  cases form with
  | event | producer => exact numberForm_orderly constants _ _
  | tick => exact .bind (keyword_orderly _) fun _ _ => .pure trivial
  | block => exact blockForm_orderly constants
  | negation => exact unaryForm_orderly hinner _ _
  | disjunction | conjunction => exact binaryForm_orderly hinner _ _

end

/-- Matchers are orderly in any number of levels; too deep a nesting is reported where it is met. -/
theorem matcherIn_orderly (constants : Table Text Literal) {forms : List MatcherForm}
    (hforms : 2 ≤ forms.length) (levels : Nat) :
    (matcherIn constants forms levels).OrderlyFrom b := by
  induction levels with
  | zero => exact .bindHere fun c hc => Diagnostic.finding_orderly hc nofun
  | succ levels ih =>
    exact .alt (by rwa [List.length_map])
      (List.forall_mem_map.2 fun form _ => matcherForm_orderly ih constants form)

theorem matchClause_orderly [NestingLimit] (constants : Table Text Literal) :
    (matchClause constants).OrderlyFrom b :=
  .bind (keyword_orderly _) fun _ _ => .committed <| .bind skipSpace_orderly fun _ _ =>
    matcherIn_orderly constants (show 2 ≤ MatcherForm.all.length by decide) _

theorem condition_orderly [NestingLimit] (constants : Table Text Literal) :
    (condition constants).OrderlyFrom b := by
  refine .bind (.optional (nextKeyword_orderly _)) fun r _ => ?_
  split
  · exact .pure trivial
  · exact .committed <| .bind space_orderly fun _ _ =>
      .bind (matchClause_orderly constants) fun _ _ => .pure trivial

end Parser

/-! ### Declarations -/

namespace Declaration

/-- Reads what stands in front of the name or the index that a declaration introduces. -/
def heading (constants : Table Text Literal) : Declaration → Parser Unit
  | constant .. => do
    Parser.keyword "const"
    Parser.space
  | state .. => do
    Parser.keyword "let"
    Parser.space
  | peripheral .. => do
    let _ ← Parser.optional (Parser.gatewayList constants)
    Parser.keyword "peripheral"
    Parser.space

/-- The name or the index that a declaration introduces is read between two cursors. -/
def ReadBetween (constants : Table Text Literal) (d : Declaration) (c e : Cursor) : Prop :=
  match d with
  | constant name _ _ | state name _ _ => Parser.name.outcome c = .ok (name, e)
  | peripheral index _ _ _ => (Parser.operand constants .u32).outcome c = .ok (index, e)

/-- The place of a declaration in a statement at `b` is the text between two cursors, where its name
or its index stands behind the heading. -/
structure PlacedAt (constants : Table Text Literal) (b : Cursor) (d : Declaration)
    (c e : Cursor) : Prop where
  heading : (d.heading constants).outcome b = .ok ((), c)
  subject : d.ReadBetween constants c e
  place : d.place = (some c, e.offset - c.offset)

end Declaration

/-- A declaration in a statement at `b` remembers its place. -/
def Statement.Placed (constants : Table Text Literal) (b : Cursor) : Statement → Prop
  | declaration d => ∃ c e, d.PlacedAt constants b c e
  | rule _ | clause _ => True

namespace Parser

variable {constants : Table Text Literal}

/-- A name that is read within a source is as long as its text. -/
theorem offset_sub_of_name {t : Text} {e : Cursor} (hc : c.inSource)
    (h : name.outcome c = .ok (t, e)) : t.length = e.offset - c.offset := by
  rw [outcome_name] at h
  split at h <;> cases h
  have hle := length_takeWhile_rest_le c isNameChar
  have hrest := c.length_rest
  rw [Cursor.inSource_iff] at hc
  rw [Cursor.offset_advance]
  omega

/-- A binding has its name right behind its keyword and the space. -/
theorem binding_orderlyAt (word : Text) (hc : b.Leads c) :
    (binding constants word).OrderlyAt b c fun r => b.Leads r.nameAt ∧ b.Leads r.literalAt ∧
      (do keyword word; space : Parser Unit).outcome c = .ok ((), r.nameAt) ∧
      ∃ e, name.outcome r.nameAt = .ok (r.name, e) :=
  (keyword_orderly word hc).bindAt fun _ _ hkeyword hlead _ => .committed <|
    (space_orderly hlead).bindAt fun _ _ hspace hnameAt _ => .bindHere <|
      (name_orderlyAt hnameAt).bindAt fun _ e hname hlead _ =>
        Orderly.bind (nextSymbol_orderly _) (fun _ _ => .bind skipSpace_orderly fun _ _ =>
          .bindHere fun _ hliteralAt =>
            (literalOrConstant_orderly constants hliteralAt).bind fun _ _ =>
              .bind terminator_orderly fun _ _ => .pure
                ⟨hnameAt, hliteralAt, by rw [outcome_bind, hkeyword]; exact hspace, e, hname⟩) hlead

/-- The declaration of a constant remembers where its name stands. -/
theorem constStatement_orderlyAt (hb : b.inSource) (hc : b.Leads c) :
    (constStatement constants).OrderlyAt b c fun d => ∃ n e, d.PlacedAt constants c n e :=
  (binding_orderlyAt _ hc).bind fun r ⟨hnameAt, _, hheading, e, hname⟩ =>
    .bind (.note _) fun _ _ => .pure ⟨r.nameAt, e, hheading, hname,
      congrArg (some r.nameAt, ·) (offset_sub_of_name (hnameAt.inSource hb) hname)⟩

/-- The declaration of a state variable remembers where its name stands. -/
theorem letStatement_orderlyAt (hb : b.inSource) (hc : b.Leads c) :
    (letStatement constants).OrderlyAt b c fun d => ∃ n e, d.PlacedAt constants c n e :=
  (binding_orderlyAt _ hc).bind fun r ⟨hnameAt, hliteralAt, hheading, e, hname⟩ =>
    .bind (V := fun _ => True) (.committed <| .ofExcept (fun _ _ => trivial) fun _ h =>
      ParameterType.value.cast_orderly hliteralAt h) fun _ _ =>
        .bind (.note _) fun _ _ => .pure ⟨r.nameAt, e, hheading, hname,
          congrArg (some r.nameAt, ·) (offset_sub_of_name (hnameAt.inSource hb) hname)⟩

theorem gatewayList_orderly (constants : Table Text Literal) :
    (gatewayList constants).OrderlyFrom b := by
  refine .bind (keyword_orderly _) fun _ _ => .committed <| .bind skipSpace_orderly fun _ _ =>
    .bind (argumentList_orderly constants) fun written hwritten =>
      .bind (V := fun _ => True) (.ofExcept (fun _ _ => trivial) fun d h => ?_) fun _ _ =>
        .bind space_orderly fun _ _ => .pure trivial
  obtain ⟨a, ha, hcast⟩ := exists_of_mapM_eq_error h
  exact ParameterType.u16.cast_orderly (hwritten a ha) hcast

/-- The keyword of a family has a family, and each of its words a shape. -/
theorem shape_orderly (constants : Table Text Literal) (family : Family) :
    (shape constants family.keyword).OrderlyFrom b := by
  have hlength : 2 ≤ (family.shapes.map ItemName.spelling).length := by
    cases family <;> decide
  rw [shape, family.ofKeyword?_keyword, demand_some, pure_bind]
  refine .bindHere fun start hstart =>
    (keywordChoice_orderlyAt hlength hstart).bind fun word ⟨hword, hspan⟩ => ?_
  obtain ⟨shapeName, hshape, rfl⟩ := List.mem_map.1 hword
  rw [Family.shape?_spelling hshape, demand_some, pure_bind]
  exact .bind skipSpace_orderly fun _ _ =>
    .bind (argumentList_orderly constants) fun _ hwritten =>
      .bind terminator_orderly fun _ _ => .ofExcept (fun _ _ => trivial) fun _ h =>
        Item.construct_orderly hspan hwritten h

/-- The index of a peripheral stands right behind the first space. -/
theorem peripheralBody_orderlyAt (gateways : List Nat) (hc : b.Leads c) :
    (peripheralBody constants gateways).OrderlyAt b c fun d =>
      ∃ index entry n e, d = .peripheral index entry (some n) (e.offset - n.offset) ∧
        space.outcome c = .ok ((), n) ∧ (operand constants .u32).outcome n = .ok (index, e) := by
  refine (space_orderly hc).bindAt fun _ n hspace hindexAt _ => .bindHere <|
    (operand_orderly constants .u32 hindexAt).bindAt fun index e hindex hend _ => .bindHere <|
      (space_orderly hend).bind fun _ _ => fun _ hfamily =>
        (keywordChoice_orderlyAt (by decide) hfamily).bind fun word ⟨hword, _⟩ => ?_
  obtain ⟨family, -, rfl⟩ := List.mem_map.1 hword
  exact .bind space_orderly fun _ _ => .bind (shape_orderly constants family) fun _ _ =>
    .bind (.note _) fun _ _ => .pure ⟨index, _, n, e, rfl, hspace, hindex⟩

/-- The declaration of a peripheral remembers where its index stands, with gateways or without. -/
theorem peripheralStatement_orderlyAt (hc : b.Leads c) :
    (peripheralStatement constants).OrderlyAt b c fun d => ∃ n e, d.PlacedAt constants c n e := by
  refine (Orderly.optional (gatewayList_orderly constants) hc).bindAt
    fun r g hgateways hlead _ => ?_
  have hbody : ∀ gateways k, (keyword "peripheral").outcome g = .ok ((), k) → b.Leads k →
      (peripheralBody constants gateways).OrderlyAt b k fun d =>
        ∃ n e, d.PlacedAt constants c n e := by
    intro gateways k hkeyword hlead
    refine (peripheralBody_orderlyAt gateways hlead).mono ?_
    rintro d ⟨index, entry, n, e, rfl, hspace, hindex⟩
    refine ⟨n, e, ?_, hindex, rfl⟩
    rw [Declaration.heading, outcome_bind, hgateways, ok_bind, outcome_bind, hkeyword]
    exact hspace
  split
  · exact (keyword_orderly _ hlead).bindAt fun _ k hkeyword hlead _ =>
      .committed (hbody _ k hkeyword hlead)
  · exact .committed <| (keyword_orderly _ hlead).bindAt fun _ k hkeyword hlead _ =>
      hbody _ k hkeyword hlead

/-! ### Failures of statements -/

/-- What a statement at a cursor ends with when one of its parsers has failed. -/
theorem statementFailure_cases (c : Cursor) (d : Diagnostic) :
    statementFailure c d =
        .finding { location := some c, problem := .nestingTooDeep, severity := .fatal } ∨
      d.isFatal = true ∧ statementFailure c d = d ∨
      d.isFatal = false ∧
        statementFailure c d = (Diagnostic.expectedBecause c .something d).escalate := by
  unfold statementFailure
  split
  · exact .inl rfl
  · cases hfatal : d.isFatal with
    | true => exact .inr (.inl ⟨rfl, rfl⟩)
    | false => exact .inr (.inr ⟨rfl, rfl⟩)

/-- What a statement reports of a failure is as orderly as the failure. -/
theorem statementFailure_orderly {d : Diagnostic} (hc : b.Leads c)
    (hd : d.Orderly (Finding.ReadFrom b)) :
    (statementFailure c d).Orderly (Finding.ReadFrom b) := by
  rcases statementFailure_cases c d with h | ⟨-, h⟩ | ⟨hrecoverable, h⟩ <;> rw [h]
  · exact Diagnostic.finding_orderly hc nofun
  · exact hd
  · exact Diagnostic.escalate_orderly (Diagnostic.expectedBecause_orderly hc _ hd hrecoverable)

/-- All failures of a statement are fatal. -/
theorem isFatal_statementFailure (c : Cursor) (d : Diagnostic) :
    (statementFailure c d).isFatal = true := by
  rcases statementFailure_cases c d with h | ⟨hfatal, h⟩ | ⟨-, h⟩ <;> rw [h]
  · rfl
  · exact hfatal
  · rfl

/-! ### Rules -/

/-- There is a matcher, so the conjunction does not fail. -/
theorem conjunction_orderly {ms : List Matcher} (h : ms ≠ []) :
    (conjunction ms).OrderlyFrom b := by
  obtain ⟨m, ms, rfl⟩ := List.exists_cons_of_ne_nil h
  exact .pure trivial

theorem blockClause_orderly {α : Type} {clause : Parser α}
    (h : clause.OrderlyFrom b) : (blockClause clause).OrderlyFrom b :=
  .bind skipSpace_orderly fun _ _ => .bind h fun _ _ =>
    .bind (.committed clauseTerminator_orderly) fun _ _ => .pure trivial

variable [NestingLimit]

theorem sendStatement_orderly (constants : Table Text Literal) :
    (sendStatement constants).OrderlyFrom b := by
  refine .bind (keyword_orderly _) fun _ _ => .bind (V := fun _ => True) (.committed ?_)
    fun _ _ => .bind (.note _) fun _ _ =>
      .bind (conjunction_orderly (List.cons_ne_nil _ _)) fun _ _ => .pure trivial
  exact .bind space_orderly fun _ _ => .bind (operand_orderly constants .u16) fun _ _ =>
    .bind (nextKeyword_orderly _) fun _ _ => .bind space_orderly fun _ _ =>
      .bind (operand_orderly constants .u16) fun _ _ =>
        .bind (nextKeyword_orderly _) fun _ _ => .bind space_orderly fun _ _ =>
          .bind (operand_orderly constants .u16) fun _ _ =>
            .bind (condition_orderly constants) fun _ _ =>
              .bind terminator_orderly fun _ _ => .pure trivial

theorem setStatement_orderly (scope : Scope) : (setStatement scope).OrderlyFrom b := by
  refine .bind (keyword_orderly _) fun _ _ => .bind (V := fun _ => True) (.committed ?_)
    fun _ _ => .bind (.note _) fun _ _ =>
      .bind (conjunction_orderly (List.cons_ne_nil _ _)) fun _ _ => .pure trivial
  exact .bind space_orderly fun _ _ => .bind (stateVariable_orderly scope.slots) fun _ _ =>
    .bind (nextKeyword_orderly _) fun _ _ => .bind space_orderly fun _ _ =>
      .bind (operand_orderly scope.constants .value) fun _ _ =>
        .bind (nextKeyword_orderly _) fun _ _ => .bind space_orderly fun _ _ =>
          .bind (operand_orderly scope.constants .u16) fun _ _ =>
            .bind (nextKeyword_orderly _) fun _ _ => .bind space_orderly fun _ _ =>
              .bind (operand_orderly scope.constants .u16) fun _ _ =>
                .bind (condition_orderly scope.constants) fun _ _ =>
                  .bind terminator_orderly fun _ _ => .pure trivial

theorem fireClause_orderly (constants : Table Text Literal) :
    (fireClause constants).OrderlyFrom b :=
  .bind (keyword_orderly _) fun _ _ => .committed <| .bind (nextSymbol_orderly _) fun _ _ =>
    .bind skipSpace_orderly fun _ _ => .bind (optionalExtractor_orderly constants) fun _ _ =>
      .bind skipSpace_orderly fun _ _ =>
        .bind (itemCall_orderly _ .unknownProducer nofun constants) fun _ _ =>
          .bind (nextSymbol_orderly _) fun _ _ => .bind (condition_orderly constants) fun _ _ =>
            .pure trivial

/-- The matchers of a block are not missing where they are put together. -/
theorem doStatement_orderly (constants : Table Text Literal) :
    (doStatement constants).OrderlyFrom b := by
  refine .bind (keyword_orderly _) fun _ _ =>
    .bind (V := fun r : List Matcher × List Creator => r.1 ≠ []) (.committed ?_) fun _ hr =>
      .bind (.note _) fun _ _ => .bind (conjunction_orderly hr) fun _ _ => .pure trivial
  exact .bind (nextSymbol_orderly _) fun _ _ =>
    .bind (.many1 (blockClause_orderly (matchClause_orderly constants))) fun _ hmatchers =>
      .bind (.many0 (blockClause_orderly (fireClause_orderly constants))) fun _ _ =>
        .bind (nextSymbol_orderly _) fun _ _ =>
          .bind clauseTerminator_orderly fun _ _ => .pure hmatchers

/-! ### Choice of a statement -/

/-- Every form of a statement is orderly, and declarations remember where they are placed. -/
theorem statementForm_orderlyAt (scope : Scope) (form : StatementForm) (hb : b.inSource)
    (hc : b.Leads c) :
    (statementForm scope form).OrderlyAt b c (Statement.Placed scope.constants c) := by
  cases form with
  | peripheral => exact .map (peripheralStatement_orderlyAt hc)
  | letState => exact .map (letStatement_orderlyAt hb hc)
  | const => exact .map (constStatement_orderlyAt hb hc)
  | send => exact .map (sendStatement_orderly scope.constants hc)
  | doBlock => exact .map (doStatement_orderly scope.constants hc)
  | setState => exact .map (setStatement_orderly scope hc)

/-- Statements are orderly, and declarations remember where they are placed. -/
theorem statement_orderlyAt (scope : Scope) (hb : b.inSource) (hc : b.Leads c) :
    (statement scope).OrderlyAt b c (Statement.Placed scope.constants c) := by
  have halt : (alt (StatementForm.all.map (statementForm scope))).OrderlyAt b c
      (Statement.Placed scope.constants c) :=
    .alt (by rw [List.length_map]; decide)
      (List.forall_mem_map.2 fun form _ => statementForm_orderlyAt scope form hb hc)
  rw [OrderlyAt, statement, outcome_statementIn]
  exact OrderlyOutcome.mapError halt fun _ => statementFailure_orderly hc

variable {scope : Scope} {s : Statement} {e : Failure} {c' : Cursor}

/-- A declaration that is read from a source remembers its place. -/
theorem placed_of_statement (hc : c.inSource) (h : (statement scope).outcome c = .ok (s, c')) :
    s.Placed scope.constants c := by
  have hstatement : OrderlyOutcome c _ _ := statement_orderlyAt scope hc (.refl c)
  rw [h] at hstatement
  exact hstatement.2

/-- A statement that cannot be read from a source fails orderly, from where it starts on. -/
theorem orderly_of_statement (hc : c.inSource) (h : (statement scope).outcome c = .error e) :
    e.OrderlyFrom c := by
  have hstatement : OrderlyOutcome c _ _ := statement_orderlyAt scope hc (.refl c)
  rw [h] at hstatement
  exact hstatement

/-- No failure of a statement is passed over. -/
theorem isFatal_of_statement (h : (statement scope).outcome c = .error e) : e.isFatal = true := by
  rw [statement, outcome_statementIn, mapError_eq_error] at h
  obtain ⟨d | fault, -, rfl⟩ := h
  · exact isFatal_statementFailure c d
  · rfl

end Parser

/-! ### Refusals -/

namespace Declaration

variable {constants : Table Text Literal} {d : Declaration} {e : Cursor}

theorem heading_orderly (d : Declaration) : (d.heading constants).OrderlyFrom b := by
  cases d with
  | constant _ _ _ | state _ _ _ =>
    exact .bind (Parser.keyword_orderly _) fun _ _ => Parser.space_orderly
  | peripheral _ _ _ _ =>
    exact .bind (.optional (Parser.gatewayList_orderly constants)) fun _ _ =>
      .bind (Parser.keyword_orderly _) fun _ _ => Parser.space_orderly

theorem ReadBetween.leads (h : d.ReadBetween constants c e) : c.Leads e := by
  cases d with
  | constant name _ _ | state name _ _ =>
    exact (Parser.name_orderlyAt (.refl c)).leads h
  | peripheral index _ _ _ =>
    exact (Parser.operand_orderly constants .u32 (.refl c)).leads h

/-- The refusal of a declaration points at its place. -/
theorem PlacedAt.duplicate_orderly (h : d.PlacedAt constants b c e) (hb : b.inSource) :
    d.duplicate.Orderly (Finding.PointsFrom b) := by
  have hlead : b.Leads c := (d.heading_orderly (.refl b)).leads h.heading
  have hend := Cursor.inSource_iff.1 (h.subject.leads.inSource (hlead.inSource hb))
  rw [h.subject.leads.source_eq] at hend
  have hrest := c.length_rest
  refine .finding ⟨c, by rw [h.place], hlead, ?_⟩
  rw [h.place, Option.getD_some]
  omega

end Declaration

end EventRules
