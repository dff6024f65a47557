/-
# Statements in relocated sources

What the grammar reads remembers positions: a literal that is not yet checked, an argument, and the
name that a declaration introduces. At a relocated position all of these are read with their
positions relocated. Once they are taken in, only diagnostics still tell the difference.
-/

import EventRules.Proofs.Relocation
import EventRules.Proofs.Run

namespace EventRules

/-! ### Literals -/

/-- A form of a literal with its positions moved. -/
def LiteralForm.relocate (move : Cursor → Cursor) : LiteralForm → LiteralForm
  | bool b => bool b
  | integer digitsAt digits suffixAt suffix => integer (move digitsAt) digits (move suffixAt) suffix
  | string t => string t
  | colour start digits => colour (move start) digits

/-- The checks of a literal fail at the relocated place. -/
theorem LiteralForm.check_relocate (R : Relocation) (form : LiteralForm) :
    (form.relocate R.move).check.mapError .diagnostic =
      R.result id (form.check.mapError .diagnostic) := by
  cases form with
  | bool b => rfl
  | string t => rfl
  | integer digitsAt digits suffixAt suffix =>
    simp only [relocate, check]
    cases Width.ofName? suffix with
    | none => rfl
    | some width =>
      cases number? digits with
      | none => rfl
      | some n =>
        dsimp only
        split <;> rfl
  | colour start digits =>
    simp only [relocate, check]
    cases (bytes? digits).bind Colour.ofComponents? <;> rfl

/-- A conversion fails at the relocated place. -/
theorem ParameterType.cast_relocate (R : Relocation) (p : ParameterType) (l : Literal)
    (c : Cursor) : p.cast l (some (R.move c)) = R.result id (p.cast l (some c)) := by
  rw [cast_eq, cast_eq]
  cases p.convert l <;> rfl

namespace Parser

variable {R : Relocation}

theorem booleanForm_tracks :
    R.Tracks (LiteralForm.relocate R.move) booleanForm booleanForm := by
  refine .bind .here fun c => ?_
  rw [R.atKeyword]
  split <;> exact .seq (keyword_tracks _) fun _ => .pure rfl

theorem integerForm_tracks (k : CharClass) :
    R.Tracks (LiteralForm.relocate R.move) (integerForm k) (integerForm k) :=
  .bind .here fun _ => .seq (run1_tracks k) fun _ => .seq (symbol_tracks _) fun _ =>
    .bind .here fun _ => .seq (run1_tracks _) fun _ => .pure rfl

theorem stringForm_tracks : R.Tracks (LiteralForm.relocate R.move) stringForm stringForm :=
  .seq (symbol_tracks _) fun _ => .seq (takeUntil_tracks _) fun _ =>
    .seq (symbol_tracks _) fun _ => .pure rfl

theorem colourForm_tracks : R.Tracks (LiteralForm.relocate R.move) colourForm colourForm :=
  .bind .here fun _ => .seq (symbol_tracks _) fun _ => .seq (run1_tracks _) fun _ => .pure rfl

/-- A literal has the same form behind another text. -/
theorem literalForm_tracks :
    R.Tracks (LiteralForm.relocate R.move) literalForm literalForm := by
  have halt : R.Tracks (LiteralForm.relocate R.move) (alt literalForms) (alt literalForms) :=
    .choice (.cons booleanForm_tracks <| .cons (integerForm_tracks _) <|
      .cons (integerForm_tracks _) <| .cons stringForm_tracks <| .cons colourForm_tracks .nil) []
  intro c
  rw [outcome_literalForm, outcome_literalForm, halt c]
  refine R.result_mapError (fun d => ?_) _
  rw [Diagnostic.isFatal_relocate]
  split <;> rfl

theorem literal_tracks : R.Tracks id literal literal :=
  .bind literalForm_tracks fun form => .ofExcept (form.check_relocate R)

/-- The constants are the same, so a name stands for the same literal. -/
theorem literalOrConstant_tracks (constants : Table Text Literal) :
    R.Tracks id (literalOrConstant constants) (literalOrConstant constants) := by
  intro c
  rw [outcome_literalOrConstant, outcome_literalOrConstant, name_tracks c, literal_tracks c]
  cases name.outcome c with
  | error d => rfl
  | ok r =>
    simp only [Relocation.result_ok, Prod.map_fst, Prod.map_snd, id]
    cases constants.get? r.1 <;> rfl

theorem stateVariable_tracks (slots : Table Text Nat) :
    R.Tracks id (stateVariable slots) (stateVariable slots) := by
  intro c
  rw [outcome_stateVariable, outcome_stateVariable, name_tracks c]
  cases name.outcome c with
  | error e => cases e <;> rfl
  | ok r =>
    simp only [Relocation.result_ok, Prod.map_fst, Prod.map_snd, id]
    cases slots.get? r.1 <;> rfl

theorem operand_tracks (constants : Table Text Literal) (p : ParameterType) :
    R.Tracks id (operand constants p) (operand constants p) :=
  .bind .here fun c => .seq (literalOrConstant_tracks constants) fun l =>
    .ofExcept (p.cast_relocate R l c)

end Parser

/-! ### Items -/

/-- A written argument with its position moved. -/
def WrittenArgument.relocate (move : Cursor → Cursor) (a : WrittenArgument) : WrittenArgument :=
  ⟨move a.location, a.literal⟩

/-- Arguments are converted alike, and what is wrong with them is reported at the relocated places.
-/
theorem Arguments.convert_relocate (R : Relocation) (miscount : Diagnostic)
    (ps : List ParameterType) (as : List WrittenArgument) :
    convert (miscount.relocate R.move) ps (as.map (·.relocate R.move)) =
      R.result id (convert miscount ps as) := by
  induction ps generalizing as with
  | nil => cases as <;> rfl
  | cons p ps ih =>
    cases as with
    | nil => rfl
    | cons a as =>
      rw [List.map_cons, convert, convert, WrittenArgument.relocate, p.cast_relocate, ih]
      apply R.result_bind
      intro argument
      apply R.result_bind
      intro rest
      rfl

/-- An item is built alike, and what is wrong with it is reported at the relocated place. -/
theorem Item.construct_relocate {ν : Type} [ItemName ν] (R : Relocation) (start : Cursor)
    (name : ν) (as : List WrittenArgument) :
    construct (R.move start) name (as.map (·.relocate R.move)) =
      R.result id (construct start name as) := by
  simp only [construct, List.length_map]
  split
  · have hconvert := Arguments.convert_relocate R (.expectedIn start (ItemName.spelling name).length
      (.argumentCount (ItemName.parameters name).length as.length)) (ItemName.parameters name) as
    apply (congrArg (· >>= _) hconvert).trans
    apply R.result_bind
    intro arguments
    rfl
  · rfl

namespace Parser

variable {R : Relocation} (constants : Table Text Literal)

/-- The arguments of a call remember relocated places. -/
theorem argumentList_tracks :
    R.Tracks (List.map (WrittenArgument.relocate R.move)) (argumentList constants)
      (argumentList constants) :=
  list_tracks _ <| .bind .here fun _ => .seq (literalOrConstant_tracks constants) fun _ => .pure rfl

/-- A call is checked alike. -/
theorem itemCall_tracks (ν : Type) [ItemName ν] (unknown : Problem) :
    R.Tracks id (itemCall ν unknown constants) (itemCall ν unknown constants) := by
  refine .bind .here fun start => .seq name_tracks fun spelling => ?_
  cases ItemName.ofSpelling? ν spelling with
  | none => exact .fail rfl
  | some itemName =>
    refine .seq (.committed ?_) fun _ => .seq (.note _ _) fun _ => .pure rfl
    exact .seq skipSpace_tracks fun _ => .bind (argumentList_tracks constants) fun as =>
      .seq terminator_tracks fun _ => .ofExcept (Item.construct_relocate R start itemName as)

theorem optionalExtractor_tracks :
    R.Tracks id (optionalExtractor constants) (optionalExtractor constants) :=
  .bind (itemCall_tracks constants _ _).optional fun e => .pure (by cases e <;> rfl)

/-! ### Matchers -/

theorem numberForm_tracks (word : Text) (build : Nat → Matcher) :
    R.Tracks id (numberForm constants word build) (numberForm constants word build) :=
  .seq (keyword_tracks word) fun _ => .committed <| .seq space_tracks fun _ =>
    .seq (operand_tracks constants .u16) fun _ => .pure rfl

theorem blockForm_tracks : R.Tracks id (blockForm constants) (blockForm constants) :=
  .seq (symbol_tracks _) fun _ => .committed <| .seq skipSpace_tracks fun _ =>
    .seq (optionalExtractor_tracks constants) fun _ => .seq skipSpace_tracks fun _ =>
      .seq (itemCall_tracks constants _ _) fun _ => .seq (nextSymbol_tracks _) fun _ => .pure rfl

theorem unaryForm_tracks {inner : Parser Matcher} (h : R.Tracks id inner inner) (word : Text)
    (build : Matcher → Matcher) :
    R.Tracks id (unaryForm inner word build) (unaryForm inner word build) :=
  .seq (keyword_tracks word) fun _ => .committed <| .seq (nextSymbol_tracks _) fun _ =>
    .seq skipSpace_tracks fun _ => .seq h fun _ => .seq (nextSymbol_tracks _) fun _ => .pure rfl

theorem binaryForm_tracks {inner : Parser Matcher} (h : R.Tracks id inner inner) (word : Text)
    (build : Matcher → Matcher → Matcher) :
    R.Tracks id (binaryForm inner word build) (binaryForm inner word build) :=
  .seq (keyword_tracks word) fun _ => .committed <| .seq (nextSymbol_tracks _) fun _ =>
    .seq skipSpace_tracks fun _ => .seq h fun _ => .seq (nextSymbol_tracks _) fun _ =>
      .seq skipSpace_tracks fun _ => .seq h fun _ => .seq (nextSymbol_tracks _) fun _ => .pure rfl

theorem matcherForm_tracks {inner : Parser Matcher} (h : R.Tracks id inner inner)
    (form : MatcherForm) :
    R.Tracks id (matcherForm constants inner form) (matcherForm constants inner form) := by
  cases form with
  | event | producer => exact numberForm_tracks constants _ _
  | tick => exact .seq (keyword_tracks _) fun _ => .pure rfl
  | block => exact blockForm_tracks constants
  | negation => exact unaryForm_tracks h _ _
  | disjunction | conjunction => exact binaryForm_tracks h _ _

/-- Matchers are read alike in any number of levels. -/
theorem matcherIn_tracks (forms : List MatcherForm) (levels : Nat) :
    R.Tracks id (matcherIn constants forms levels) (matcherIn constants forms levels) := by
  induction levels with
  | zero => exact .bind .here fun _ => .fail rfl
  | succ levels ih => exact .alt_map forms fun form => matcherForm_tracks constants ih form

theorem matchClause_tracks [NestingLimit] :
    R.Tracks id (matchClause constants) (matchClause constants) :=
  .seq (keyword_tracks _) fun _ => .committed <| .seq skipSpace_tracks fun _ =>
    matcherIn_tracks constants _ _

theorem condition_tracks [NestingLimit] :
    R.Tracks id (condition constants) (condition constants) := by
  refine .bind (nextKeyword_tracks _).optional fun a => ?_
  cases a with
  | none => exact .pure rfl
  | some _ =>
    exact .committed <| .seq space_tracks fun _ =>
      .seq (matchClause_tracks constants) fun _ => .pure rfl

end Parser

/-! ### Statements -/

/-- A binding with its positions moved. -/
def Parser.Binding.relocate (move : Cursor → Cursor) (b : Binding) : Binding :=
  { b with nameAt := move b.nameAt, literalAt := move b.literalAt }

/-- A declaration with its position moved. -/
def Declaration.relocate (move : Cursor → Cursor) : Declaration → Declaration
  | constant name l location => constant name l (location.map move)
  | state name v location => state name v (location.map move)
  | peripheral index p location length => peripheral index p (location.map move) length

/-- A statement with its position moved. -/
def Statement.relocate (move : Cursor → Cursor) : Statement → Statement
  | declaration d => declaration (d.relocate move)
  | rule p => rule p
  | clause m => clause m

/-- A duplicate is reported where the declaration is relocated to. -/
theorem Declaration.duplicate_relocate (move : Cursor → Cursor) (d : Declaration) :
    (d.relocate move).duplicate = d.duplicate.relocate move := by
  cases d <;> rfl

/-- Apart from its places, a relocated declaration is the same. -/
theorem Declaration.unlocated_relocate (move : Cursor → Cursor) (d : Declaration) :
    (d.relocate move).unlocated = d.unlocated := by
  cases d <;> rfl

namespace Parser

variable {R : Relocation} (constants : Table Text Literal)

/-- A binding remembers where its name and its literal stand. -/
theorem binding_tracks (word : Text) :
    R.Tracks (Binding.relocate R.move) (binding constants word) (binding constants word) :=
  .seq (keyword_tracks word) fun _ => .committed <| .seq space_tracks fun _ =>
    .bind .here fun _ => .seq name_tracks fun _ => .seq (nextSymbol_tracks _) fun _ =>
      .seq skipSpace_tracks fun _ => .bind .here fun _ =>
        .seq (literalOrConstant_tracks constants) fun _ => .seq terminator_tracks fun _ => .pure rfl

theorem constStatement_tracks :
    R.Tracks (Declaration.relocate R.move) (constStatement constants) (constStatement constants) :=
  .bind (binding_tracks constants _) fun _ => .seq (.note _ _) fun _ => .pure rfl

theorem letStatement_tracks :
    R.Tracks (Declaration.relocate R.move) (letStatement constants) (letStatement constants) :=
  .bind (binding_tracks constants _) fun b =>
    .seq (.committed (.ofExcept (ParameterType.value.cast_relocate R b.literal b.literalAt)))
      fun _ => .seq (.note _ _) fun _ => .pure rfl

theorem gatewayList_tracks : R.Tracks id (gatewayList constants) (gatewayList constants) := by
  have haddresses (as : List WrittenArgument) :
      ((as.map (·.relocate R.move)).mapM fun a => ParameterType.u16.cast a.literal a.location) =
        R.result id (as.mapM fun a => ParameterType.u16.cast a.literal a.location) := by
    induction as with
    | nil => rfl
    | cons a as ih =>
      rw [List.map_cons, List.mapM_cons, List.mapM_cons, ih]
      apply (congrArg (· >>= _) (ParameterType.u16.cast_relocate R a.literal a.location)).trans
      apply R.result_bind
      intro address
      apply R.result_bind
      intro addresses
      rfl
  exact .seq (keyword_tracks _) fun _ => .committed <| .seq skipSpace_tracks fun _ =>
    .bind (argumentList_tracks constants) fun as => .seq (.ofExcept (haddresses as)) fun _ =>
      .seq space_tracks fun _ => .pure rfl

theorem shape_tracks (familyWord : Text) :
    R.Tracks id (shape constants familyWord) (shape constants familyWord) :=
  .seq (.demand _ _) fun _ => .bind .here fun start => .seq (keywordChoice_tracks _) fun _ =>
    .seq (.demand _ _) fun shapeName => .seq skipSpace_tracks fun _ =>
      .bind (argumentList_tracks constants) fun as => .seq terminator_tracks fun _ =>
        .ofExcept (Item.construct_relocate R start shapeName as)

/-- The index of a peripheral is as long at both positions. -/
theorem peripheralBody_tracks (gateways : List Nat) :
    R.Tracks (Declaration.relocate R.move) (peripheralBody constants gateways)
      (peripheralBody constants gateways) := by
  refine .seq space_tracks fun _ => .bind .here fun indexAt =>
    .seq (operand_tracks constants .u32) fun index => .bind .here fun indexEnd =>
      .seq space_tracks fun _ => .seq (keywordChoice_tracks _) fun familyWord =>
        .seq space_tracks fun _ => .seq (shape_tracks constants familyWord) fun _ =>
          .seq (.note _ _) fun _ => .pure ?_
  rw [R.distance]
  rfl

/-- A peripheral is declared alike, with gateways or without. -/
theorem peripheralStatement_tracks :
    R.Tracks (Declaration.relocate R.move) (peripheralStatement constants)
      (peripheralStatement constants) := by
  refine .bind (gatewayList_tracks constants).optional fun gateways => ?_
  cases gateways with
  | none =>
    exact .seq (keyword_tracks _) fun _ => .committed (peripheralBody_tracks constants _)
  | some gateways =>
    exact .committed <| .seq (keyword_tracks _) fun _ => peripheralBody_tracks constants gateways

/-- A conjunction remembers no places. -/
theorem conjunction_tracks (ms : List Matcher) :
    R.Tracks id (conjunction ms) (conjunction ms) := by
  cases ms with
  | nil => exact .ofExcept rfl
  | cons m ms => exact .pure rfl

theorem blockClause_tracks {α : Type} {clause : Parser α} (h : R.Tracks id clause clause) :
    R.Tracks id (blockClause clause) (blockClause clause) :=
  .seq skipSpace_tracks fun _ => .seq h fun _ =>
    .seq (.committed clauseTerminator_tracks) fun _ => .pure rfl

/-- Too deep a nesting is reported at the start of the statement, and every other failure in its own
place. -/
theorem statementFailure_relocate (R : Relocation) (c : Cursor) (d : Diagnostic) :
    statementFailure (R.move c) (d.relocate R.move) = (statementFailure c d).relocate R.move := by
  have hother : (if (d.relocate R.move).isFatal then d.relocate R.move
        else (Diagnostic.expectedBecause (R.move c) .something (d.relocate R.move)).escalate) =
      (if d.isFatal then d
        else (Diagnostic.expectedBecause c .something d).escalate).relocate R.move := by
    rw [Diagnostic.isFatal_relocate]
    split <;> rfl
  cases d with
  | because f reason => exact hother
  | oneOf ds severity => exact hother
  | finding f =>
    obtain ⟨location, problem, length, severity⟩ := f
    cases problem with
    | nestingTooDeep => rfl
    | _ => exact hother

variable [NestingLimit]

theorem sendStatement_tracks :
    R.Tracks id (sendStatement constants) (sendStatement constants) := by
  have hnumber : R.Tracks id (u16Operand constants) (u16Operand constants) :=
    operand_tracks constants .u16
  refine .seq (keyword_tracks _) fun _ => .seq (.committed ?_) fun _ =>
    .seq (.note _ _) fun _ => .seq (conjunction_tracks _) fun _ => .pure rfl
  exact .seq space_tracks fun _ => .seq hnumber fun _ => .seq (nextKeyword_tracks _) fun _ =>
    .seq space_tracks fun _ => .seq hnumber fun _ => .seq (nextKeyword_tracks _) fun _ =>
      .seq space_tracks fun _ => .seq hnumber fun _ => .seq (condition_tracks constants) fun _ =>
        .seq terminator_tracks fun _ => .pure rfl

theorem setStatement_tracks (scope : Scope) :
    R.Tracks id (setStatement scope) (setStatement scope) := by
  have hnumber : R.Tracks id (u16Operand scope.constants) (u16Operand scope.constants) :=
    operand_tracks scope.constants .u16
  refine .seq (keyword_tracks _) fun _ => .seq (.committed ?_) fun _ =>
    .seq (.note _ _) fun _ => .seq (conjunction_tracks _) fun _ => .pure rfl
  exact .seq space_tracks fun _ => .seq (stateVariable_tracks _) fun _ =>
    .seq (nextKeyword_tracks _) fun _ => .seq space_tracks fun _ =>
      .seq (operand_tracks _ .value) fun _ => .seq (nextKeyword_tracks _) fun _ =>
        .seq space_tracks fun _ => .seq hnumber fun _ => .seq (nextKeyword_tracks _) fun _ =>
          .seq space_tracks fun _ => .seq hnumber fun _ =>
            .seq (condition_tracks scope.constants) fun _ =>
              .seq terminator_tracks fun _ => .pure rfl

theorem fireClause_tracks : R.Tracks id (fireClause constants) (fireClause constants) :=
  .seq (keyword_tracks _) fun _ => .committed <| .seq (nextSymbol_tracks _) fun _ =>
    .seq skipSpace_tracks fun _ => .seq (optionalExtractor_tracks constants) fun _ =>
      .seq skipSpace_tracks fun _ => .seq (itemCall_tracks constants _ _) fun _ =>
        .seq (nextSymbol_tracks _) fun _ => .seq (condition_tracks constants) fun _ => .pure rfl

/-- Matchers and creators remember no places, so blocks are read alike. -/
theorem doStatement_tracks : R.Tracks id (doStatement constants) (doStatement constants) := by
  have hmatch := (blockClause_tracks (R := R) (matchClause_tracks constants)).many1
  have hfire := (blockClause_tracks (R := R) (fireClause_tracks constants)).many0
  rw [List.map_id_fun] at hmatch hfire
  refine .seq (keyword_tracks _) fun _ => .seq (.committed ?_) fun _ =>
    .seq (.note _ _) fun _ => .seq (conjunction_tracks _) fun _ => .pure rfl
  exact .seq (nextSymbol_tracks _) fun _ => .seq hmatch fun _ => .seq hfire fun _ =>
    .seq (nextSymbol_tracks _) fun _ => .seq clauseTerminator_tracks fun _ => .pure rfl

/-- Every form of a statement is read alike at a relocated position. -/
theorem statementForm_tracks (scope : Scope) (form : StatementForm) :
    R.Tracks (Statement.relocate R.move) (statementForm scope form) (statementForm scope form) := by
  cases form with
  | peripheral => exact (peripheralStatement_tracks _).map fun _ => rfl
  | letState => exact (letStatement_tracks _).map fun _ => rfl
  | const => exact (constStatement_tracks _).map fun _ => rfl
  | send => exact (sendStatement_tracks _).map fun _ => rfl
  | doBlock => exact (doStatement_tracks _).map fun _ => rfl
  | setState => exact (setStatement_tracks scope).map fun _ => rfl

/-- At a relocated position the same statement is read, or the same diagnostic is found. -/
theorem statement_tracks (scope : Scope) :
    R.Tracks (Statement.relocate R.move) (statement scope) (statement scope) := by
  intro c
  rw [statement, outcome_statementIn, outcome_statementIn,
    Relocation.Tracks.alt_map StatementForm.all (statementForm_tracks scope) c]
  exact R.result_mapError (statementFailure_relocate R c) _

end Parser

namespace Progress

/-- A relocated statement is taken in alike, or refused at the relocated place. -/
theorem add_relocate (R : Relocation) (p : Progress) (s : Statement) :
    p.add (s.relocate R.move) = R.result id (p.add s) := by
  cases s with
  | rule r => rfl
  | clause m => rfl
  | declaration d =>
    have hsame := d.unlocated_relocate R.move
    simp only [add_eq, Statement.relocate, refusal?, noteOn, extend, Symbols.refuses_congr hsame,
      Symbols.noteOn_congr hsame, Symbols.introduce_congr hsame, d.duplicate_relocate]
    cases p.symbols.refuses d <;> rfl

/-- One step of a run is the same step at a relocated position. -/
theorem step_tracks [NestingLimit] (R : Relocation) (p : Progress) : R.Tracks id p.step p.step :=
  .bind (Parser.statement_tracks _) fun s => .seq (.ofExcept (p.add_relocate R s)) fun _ =>
    .seq (.note _ _) fun _ => .pure rfl

/-- A run goes the same way from a relocated position, and fails with a relocated diagnostic. -/
theorem outcome_run_relocate [NestingLimit] (R : Relocation) (p : Progress) (c : Cursor) :
    (p.run (R.move c)).outcome = R.result id (p.run c).outcome := by
  induction hn : c.remaining using Nat.strongRecOn generalizing p c with
  | ind n ih =>
    rw [outcome_run, outcome_run, R.skipSpace, R.atEnd, step_tracks R p c.skipSpace]
    split
    · rfl
    · cases hstep : p.step.outcome c.skipSpace with
      | error d => rfl
      | ok r => exact ih _ (hn ▸ remaining_lt_of_step hstep) r.1 r.2 rfl

end Progress

end EventRules
