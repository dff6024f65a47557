/-
# Statements on aligned sources

A statement that is read on one side of an alignment is read on the other, up to the places that it
remembers. The two sides may know different constants, as long as operands are read alike.

Each form of a statement or matcher commits after its first token. So a form is passed over exactly
where that token is missing, and the same forms are passed over on both sides.
-/

import EventRules.Proofs.AlignedToken
import EventRules.Proofs.Run
import EventRules.Proofs.Spelling

namespace EventRules

/-! ### Items -/

/-- Conversion looks at the literals of written arguments; their places matter for diagnostics
only. -/
theorem Arguments.convert_congr {ps : List ParameterType} {as bs : List WrittenArgument}
    {e e' : Diagnostic} {r : Arguments ps} (hliterals : bs.map (·.literal) = as.map (·.literal))
    (h : convert e ps as = .ok r) : convert e' ps bs = .ok r := by
  induction ps generalizing as bs with
  | nil =>
    cases as with
    | nil =>
      obtain rfl : bs = [] := by simpa using hliterals
      exact h
    | cons a as => cases h
  | cons p ps ih =>
    cases as with
    | nil => cases h
    | cons a as =>
      obtain ⟨b, bs, rfl, hfirst, hrest⟩ := List.map_eq_cons_iff.1 hliterals
      obtain ⟨x, hx, h⟩ := bind_eq_ok.1 h
      obtain ⟨xs, hxs, h⟩ := bind_eq_ok.1 h
      cases h
      have hcast : p.cast b.literal (some b.location) = .ok x := by
        rw [hfirst]
        exact ParameterType.cast_eq_ok_iff.2 (ParameterType.cast_eq_ok_iff.1 hx)
      exact bind_eq_ok.2 ⟨x, hcast, bind_eq_ok.2 ⟨xs, ih hrest hxs, rfl⟩⟩

/-- Conversions in a row depend on the literals only, and not on their places. -/
theorem ParameterType.mapM_cast_congr {p : ParameterType} {as bs : List WrittenArgument}
    {xs : List p.Argument} (hliterals : bs.map (·.literal) = as.map (·.literal))
    (h : as.mapM (fun a => p.cast a.literal (some a.location)) = .ok xs) :
    bs.mapM (fun b => p.cast b.literal (some b.location)) = .ok xs := by
  have hall : ∀ as : List WrittenArgument,
      as.mapM (fun a => p.cast a.literal (some a.location)) = .ok xs ↔
        List.Forall₂ (fun l x => p.convert l = .ok x) (as.map (·.literal)) xs := by
    intro as
    simp only [mapM_eq_ok, cast_eq_ok_iff, List.forall₂_map_left_iff]
  rw [hall] at h ⊢
  rwa [hliterals]

/-- Whether an item is built depends on the literals only, and not on their places. The number of
arguments is checked first. -/
theorem Item.construct_congr {ν : Type} [ItemName ν] {start start' : Cursor} {name : ν}
    {as bs : List WrittenArgument} {i : Item ν}
    (hliterals : bs.map (·.literal) = as.map (·.literal)) (h : construct start name as = .ok i) :
    construct start' name bs = .ok i := by
  have hlength : bs.length = as.length := by
    simpa using congrArg List.length hliterals
  rw [construct] at h ⊢
  split at h
  · next hcount =>
    obtain ⟨r, hr, h⟩ := bind_eq_ok.1 h
    cases h
    rw [if_pos (hlength.trans hcount)]
    exact bind_eq_ok.2 ⟨r, Arguments.convert_congr hliterals hr, rfl⟩
  · cases h

namespace Parser

variable {S : Alignment} {E : Cursor → Prop} {constants constants' : Table Text Literal}

section Operands

variable (hoperand : S.Simulates Cursor.Live Cursor.Any id (literalOrConstant constants)
  (literalOrConstant constants'))

include hoperand

/-- An operand is converted to the same argument on both sides. -/
theorem operand_simulates (p : ParameterType) :
    S.Simulates Cursor.Live E id (operand constants p) (operand constants' p) :=
  .bind .here fun _ _ _ => .seq hoperand.inside fun _ =>
    .ofExcept fun a ha =>
      ⟨a, ParameterType.cast_eq_ok_iff.2 (ParameterType.cast_eq_ok_iff.1 ha), rfl⟩

/-- Arguments are read alike, apart from their places. -/
theorem argumentList_simulates :
    S.Simulates Cursor.Live E (List.map WrittenArgument.literal) (argumentList constants)
      (argumentList constants') := by
  apply list_simulates (o := '(') (k := ')') (m := ',') (by decide) (by decide) (by decide)
  exact .bind .here fun _ _ _ => .seq hoperand.inside fun _ => .pure rfl

/-- A call gives the same item on both sides. -/
theorem itemCall_simulates (ν : Type) [ItemName ν] (unknown : Problem) :
    S.Simulates Cursor.Live E id (itemCall ν unknown constants)
      (itemCall ν unknown constants') := by
  refine .bind .here fun start start' _ => .seq (M := Cursor.Live) name_simulates fun spelling => ?_
  cases ItemName.ofSpelling? ν spelling with
  | none => exact .fail _ _
  | some n =>
    refine .seq (.committed ?_) fun i => .bind (.note _ _) fun _ _ _ => .pure rfl
    exact .seq skipSpace_simulates fun _ => .bind (argumentList_simulates hoperand)
      fun as bs hliterals => .seq terminator_simulates fun _ =>
        .ofExcept fun i hi => ⟨i, Item.construct_congr hliterals hi, rfl⟩

end Operands

/-- A call is passed over where no name stands, or the name of no item of the sort. -/
theorem itemCall_passes (ν : Type) [ItemName ν] (unknown : Problem) :
    S.Passes Cursor.Any (itemCall ν unknown constants) (itemCall ν unknown constants') := by
  refine .seq (.of_sure fun _ _ h => nomatch h) .here (fun _ _ _ _ _ => trivial)
    fun start start' _ => .seq name_passes name_simulates (fun _ _ _ _ _ => trivial) ?_
  intro spelling spelling' h
  obtain rfl : spelling' = spelling := h
  cases ItemName.ofSpelling? ν spelling' with
  | none => exact fun c d e _ _ _ _ => ⟨_, rfl, rfl⟩
  | some n => exact .of_sure ((Sure.committed _).bind fun _ => (Sure.note _).bind fun _ => .pure _)

section Operands

variable (hoperand : S.Simulates Cursor.Live Cursor.Any id (literalOrConstant constants)
  (literalOrConstant constants'))

include hoperand

/-- An extractor is left out on both sides or on none. -/
theorem optionalExtractor_simulates :
    S.Simulates Cursor.Live Cursor.Live id (optionalExtractor constants)
      (optionalExtractor constants') := by
  refine (Alignment.Simulates.optional (itemCall_simulates hoperand _ _)
    ((itemCall_passes _ _).mono fun _ _ => trivial)).bind fun a b h => .pure ?_
  rw [Option.map_id, id, id] at h
  rw [h]

/-! ### Matchers -/

theorem numberForm_simulates {word : Text} (hword : word.IsName) (matcher : Nat → Matcher) :
    S.Simulates Cursor.Live E id (numberForm constants word matcher)
      (numberForm constants' word matcher) :=
  .seq (keyword_simulates hword) fun _ => .committed <| .seq space_simulates fun _ =>
    .seq (operand_simulates hoperand .u16) fun _ => .pure rfl

theorem blockForm_simulates :
    S.Simulates Cursor.Live E id (blockForm constants) (blockForm constants') :=
  .seq (symbol_simulates '{' (by decide)) fun _ => .committed <|
    .seq skipSpace_simulates fun _ => .seq (optionalExtractor_simulates hoperand) fun _ =>
      .seq skipSpace_simulates fun _ => .seq (itemCall_simulates hoperand _ _) fun _ =>
        .seq (nextSymbol_simulates '}' (by decide)) fun _ => .pure rfl

end Operands

section Nested

variable {inner inner' : Parser Matcher}
  (hinner : ∀ {E : Cursor → Prop}, S.Simulates Cursor.Live E id inner inner')

include hinner

theorem unaryForm_simulates {word : Text} (hword : word.IsName) (build : Matcher → Matcher) :
    S.Simulates Cursor.Live E id (unaryForm inner word build) (unaryForm inner' word build) :=
  .seq (keyword_simulates hword) fun _ => .committed <|
    .seq (nextSymbol_simulates '{' (by decide)) fun _ =>
      .seq skipSpace_simulates fun _ => .seq hinner fun _ =>
        .seq (nextSymbol_simulates '}' (by decide)) fun _ => .pure rfl

theorem binaryForm_simulates {word : Text} (hword : word.IsName)
    (build : Matcher → Matcher → Matcher) :
    S.Simulates Cursor.Live E id (binaryForm inner word build) (binaryForm inner' word build) :=
  .seq (keyword_simulates hword) fun _ => .committed <|
    .seq (nextSymbol_simulates '{' (by decide)) fun _ =>
      .seq skipSpace_simulates fun _ => .seq hinner fun _ =>
        .seq (nextSymbol_simulates ',' (by decide)) fun _ =>
          .seq skipSpace_simulates fun _ => .seq hinner fun _ =>
            .seq (nextSymbol_simulates '}' (by decide)) fun _ => .pure rfl

/-- Every form of a matcher is read alike, if its operands and its inner matchers are. -/
theorem matcherForm_simulates (hoperand : S.Simulates Cursor.Live Cursor.Any id
    (literalOrConstant constants) (literalOrConstant constants')) (form : MatcherForm) :
    S.Simulates Cursor.Live E id (matcherForm constants inner form)
      (matcherForm constants' inner' form) := by
  cases form with
  | event => exact numberForm_simulates hoperand (by decide) _
  | producer => exact numberForm_simulates hoperand (by decide) _
  | tick => exact .seq (keyword_simulates (by decide)) fun _ => .pure rfl
  | block => exact blockForm_simulates hoperand
  | negation => exact unaryForm_simulates hinner (by decide) _
  | disjunction => exact binaryForm_simulates hinner (by decide) _
  | conjunction => exact binaryForm_simulates hinner (by decide) _

end Nested

/-- A form of a matcher that is passed over on the left is passed over on the right. -/
theorem matcherForm_passes (inner inner' : Parser Matcher) (form : MatcherForm) :
    S.Passes Cursor.Any (matcherForm constants inner form)
      (matcherForm constants' inner' form) := by
  cases form with
  | tick => exact .bind (keyword_passes (by decide)) fun _ => .pure _
  | block => exact (symbol_passes '{' (by decide)).bind fun _ => .committed _
  | _ => exact .bind (keyword_passes (by decide)) fun _ => .committed _

section Statements

variable (hoperand : S.Simulates Cursor.Live Cursor.Any id (literalOrConstant constants)
  (literalOrConstant constants'))

include hoperand

/-- Matchers are read alike in any number of levels. -/
theorem matcherIn_simulates (forms : List MatcherForm) (levels : Nat) :
    S.Simulates Cursor.Live E id (matcherIn constants forms levels)
      (matcherIn constants' forms levels) := by
  induction levels generalizing E with
  | zero => exact .bind .here fun _ _ _ => .fail _ _
  | succ levels ih =>
    exact .alt_map (fun form _ => matcherForm_simulates ih hoperand form)
      fun form _ => (matcherForm_passes _ _ form).mono fun _ _ => trivial

theorem matchClause_simulates [NestingLimit] :
    S.Simulates Cursor.Live E id (matchClause constants) (matchClause constants') :=
  .seq (keyword_simulates (by decide)) fun _ => .committed <|
    .seq skipSpace_simulates fun _ => matcherIn_simulates hoperand _ _

/-- A condition may be missing, so it is told from what lies ahead. -/
theorem condition_simulates [NestingLimit] :
    S.Simulates Cursor.Live Cursor.Live id (condition constants) (condition constants') := by
  refine .bind (.optional (nextKeyword_simulates (by decide)) (nextKeyword_passes (by decide))) ?_
  intro a b h
  obtain rfl : b = a := by simpa using h
  cases b with
  | none => exact .pure rfl
  | some _ =>
    exact .committed <| .seq space_simulates fun _ =>
      .seq (matchClause_simulates hoperand) fun _ => .pure rfl

/-! ### Declarations -/

/-- A binding has the same name and the same literal on both sides. -/
theorem binding_simulates {word : Text} (hword : word.IsName) :
    S.Simulates Cursor.Live E (fun b : Binding => (b.name, b.literal)) (binding constants word)
      (binding constants' word) :=
  .seq (keyword_simulates hword) fun _ => .committed <| .seq space_simulates fun _ =>
    .bind .here fun _ _ _ => .seq name_simulates fun _ =>
      .seq (nextSymbol_simulates '=' (by decide)) fun _ =>
        .seq skipSpace_simulates fun _ => .bind .here fun _ _ _ => .seq hoperand.inside fun _ =>
          .seq terminator_simulates fun _ => .pure rfl

theorem constStatement_simulates :
    S.Simulates Cursor.Live E Declaration.unlocated (constStatement constants)
      (constStatement constants') := by
  refine (binding_simulates hoperand (by decide)).bind fun b b' h =>
    .bind (.note _ _) fun _ _ _ => .pure ?_
  obtain ⟨hname, hliteral⟩ := Prod.mk.inj h
  rw [Declaration.unlocated, Declaration.unlocated, hname, hliteral]

theorem letStatement_simulates :
    S.Simulates Cursor.Live E Declaration.unlocated (letStatement constants)
      (letStatement constants') := by
  refine .bind (M := E) (binding_simulates hoperand (by decide)) fun b b' h => ?_
  obtain ⟨hname, hliteral⟩ := Prod.mk.inj h
  refine .seq (.committed (.ofExcept fun v hv => ⟨v, ?_, rfl⟩)) fun v =>
    .bind (.note _ _) fun _ _ _ => .pure ?_
  · rw [hliteral]
    exact ParameterType.cast_eq_ok_iff.2 (ParameterType.cast_eq_ok_iff.1 hv)
  · rw [Declaration.unlocated, Declaration.unlocated, hname]

/-- Gateways are followed by a keyword, so something lies ahead of them. -/
theorem gatewayList_simulates :
    S.Simulates Cursor.Live Cursor.Live id (gatewayList constants) (gatewayList constants') := by
  refine .seq (M := Cursor.Live) (keyword_simulates (by decide)) fun _ => .committed <|
    .seq skipSpace_simulates fun _ => .bind (argumentList_simulates hoperand) fun as bs h =>
      .seq (.ofExcept fun addresses haddresses => ⟨addresses, ?_, rfl⟩) fun _ =>
        .seq space_simulates fun _ => .pure rfl
  exact ParameterType.mapM_cast_congr h haddresses

theorem shape_simulates (familyWord : Text) :
    S.Simulates Cursor.Live E id (shape constants familyWord) (shape constants' familyWord) := by
  refine .seq (.same _) fun family => ?_
  have hwords : ∀ word ∈ family.shapes.map ItemName.spelling, word.IsName :=
    List.forall_mem_map.2 fun s _ => s.isName_spelling
  exact .bind .here fun _ _ _ => .seq (keywordChoice_simulates hwords) fun _ =>
    .seq (.same _) fun _ => .seq skipSpace_simulates fun _ =>
      .bind (argumentList_simulates hoperand) fun as bs h => .seq terminator_simulates fun _ =>
        .ofExcept fun s hs => ⟨s, Item.construct_congr h hs, rfl⟩

theorem peripheralBody_simulates (gateways : List Nat) :
    S.Simulates Cursor.Live E Declaration.unlocated (peripheralBody constants gateways)
      (peripheralBody constants' gateways) := by
  have hwords : ∀ word ∈ Family.all.map Family.keyword, word.IsName :=
    List.forall_mem_map.2 fun f _ => f.isName_keyword
  exact .seq space_simulates fun _ => .bind .here fun _ _ _ =>
    .seq (operand_simulates hoperand .u32) fun _ => .bind .here fun _ _ _ =>
      .seq space_simulates fun _ => .seq (keywordChoice_simulates hwords) fun _ =>
        .seq space_simulates fun _ => .seq (shape_simulates hoperand _) fun _ =>
          .bind (.note _ _) fun _ _ _ => .pure rfl

omit hoperand in
/-- Gateways that are left out on the left are left out on the right. -/
theorem gatewayList_passes :
    S.Passes Cursor.Any (gatewayList constants) (gatewayList constants') :=
  .bind (keyword_passes (by decide)) fun _ => .committed _

/-- A peripheral is declared alike, with gateways or without. -/
theorem peripheralStatement_simulates :
    S.Simulates Cursor.Live E Declaration.unlocated (peripheralStatement constants)
      (peripheralStatement constants') := by
  refine .bind (.optional (gatewayList_simulates hoperand)
    (gatewayList_passes.mono fun _ _ => trivial)) fun a b h => ?_
  obtain rfl : b = a := by simpa using h
  cases b with
  | none =>
    exact .seq (keyword_simulates (by decide)) fun _ =>
      .committed (peripheralBody_simulates hoperand _)
  | some gateways =>
    exact .committed <| .seq (keyword_simulates (by decide)) fun _ =>
      peripheralBody_simulates hoperand gateways

/-! ### Rules -/

variable [NestingLimit]

theorem sendStatement_simulates :
    S.Simulates Cursor.Live E id (sendStatement constants) (sendStatement constants') := by
  have hnumber {E : Cursor → Prop} : S.Simulates Cursor.Live E id (u16Operand constants)
      (u16Operand constants') := operand_simulates hoperand .u16
  refine .seq (M := Cursor.Live) (keyword_simulates (by decide)) fun _ =>
    .seq (.committed ?_) fun r => .bind (.note _ _) fun _ _ _ =>
      .seq (.same _) fun _ => .pure rfl
  exact .seq space_simulates fun _ => .seq hnumber fun _ =>
    .seq (nextKeyword_simulates (by decide)) fun _ => .seq space_simulates fun _ =>
      .seq hnumber fun _ => .seq (nextKeyword_simulates (by decide)) fun _ =>
        .seq space_simulates fun _ => .seq hnumber fun _ =>
          .seq (condition_simulates hoperand) fun _ => .seq terminator_simulates fun _ => .pure rfl

theorem fireClause_simulates :
    S.Simulates Cursor.Live Cursor.Live id (fireClause constants) (fireClause constants') :=
  .seq (keyword_simulates (by decide)) fun _ => .committed <|
    .seq (nextSymbol_simulates '{' (by decide)) fun _ =>
      .seq skipSpace_simulates fun _ => .seq (optionalExtractor_simulates hoperand) fun _ =>
        .seq skipSpace_simulates fun _ => .seq (itemCall_simulates hoperand _ _) fun _ =>
          .seq (nextSymbol_simulates '}' (by decide)) fun _ =>
            .seq (condition_simulates hoperand) fun _ => .pure rfl

omit hoperand [NestingLimit] in
theorem blockClause_simulates {α γ : Type} {view : α → γ} {clause clause' : Parser α}
    (h : S.Simulates Cursor.Live Cursor.Live view clause clause') :
    S.Simulates Cursor.Live Cursor.Live view (blockClause clause) (blockClause clause') :=
  .seq skipSpace_simulates fun _ => .bind h fun _ _ hview =>
    .seq (.committed clauseTerminator_simulates_inside) fun _ => .pure hview

omit hoperand [NestingLimit] in
/-- A clause that is passed over on the left is passed over on the right, since its terminator is
committed to. -/
theorem blockClause_passes {α : Type} {clause clause' : Parser α}
    (h : S.Passes Cursor.Any clause clause') :
    S.Passes Cursor.Live (blockClause clause) (blockClause clause') := by
  have hskip : skipSpace.Sure := fun c e hfail => by
    rw [outcome_skipSpace] at hfail
    cases hfail
  -- once the clause is read, its terminator is committed to, so only the clause can be passed over
  refine .seq (.of_sure hskip) skipSpace_simulates (fun c c' _ hc hok => ?_) fun _ _ _ =>
    (h.bind fun _ => (Sure.committed _).bind fun _ => .pure _).mono fun _ _ => trivial
  rw [outcome_skipSpace] at hok
  cases hok
  exact hc.skipSpace

/-- A block ends with a brace. After it the semicolon may be missing, and whether it is, is the same
on both sides. -/
theorem doStatement_simulates :
    S.Simulates Cursor.Live E id (doStatement constants) (doStatement constants') := by
  have hsize : ∀ w : Width, w.size ≤ w.size := fun _ => Nat.le_refl _
  have hmatch := (blockClause_simulates (matchClause_simulates hoperand)).many1
    (blockClause_passes (.bind (keyword_passes (by decide)) fun _ => .committed _))
    fun _ _ _ hok => (blockClause_takes (matchClause_takes hsize constants)).remaining_lt hok
  have hfire := (blockClause_simulates (fireClause_simulates hoperand)).many0
    (blockClause_passes (.bind (keyword_passes (by decide)) fun _ => .committed _))
    fun _ _ _ hok => (blockClause_takes (fireClause_takes hsize constants)).remaining_lt hok
  refine .seq (M := Cursor.Live) (keyword_simulates (by decide)) fun _ =>
    .seq (.committed ?_) fun _ => .bind (.note _ _) fun _ _ _ => .seq (.same _) fun _ => .pure rfl
  refine .seq (nextSymbol_simulates '{' (by decide)) fun _ =>
    .bind hmatch fun ms ms' h => .bind hfire fun cs cs' h' => ?_
  obtain rfl : ms' = ms := by simpa using h
  obtain rfl : cs' = cs := by simpa using h'
  exact .seq (nextSymbol_simulates '}' (by decide)) fun _ =>
    .seq clauseTerminator_simulates.inside fun _ => .pure rfl

end Statements

/-- A state variable has the same slot on both sides, if the tables agree. -/
theorem stateVariable_simulates {slots slots' : Table Text Nat}
    (hslots : ∀ name slot, slots.get? name = some slot → slots'.get? name = some slot) :
    S.Simulates Cursor.Live E id (stateVariable slots) (stateVariable slots') where
  before c c' slot hok hc := by
    rw [outcome_stateVariable] at hok
    split at hok
    · cases hok
    · next r hname => exact (name_simulates (S := S) (E := Cursor.Any)).before hname trivial
  follows c d c' slot hrel hok hc := by
    rw [outcome_stateVariable] at hok
    split at hok
    · cases hok
    · next r hname =>
      obtain ⟨word, d', hright, hword, hnext⟩ :=
        (name_simulates (E := Cursor.Any)).follows hrel hname trivial
      obtain rfl : word = r.1 := hword
      split at hok
      · next slot' hslot =>
        cases hok
        refine ⟨slot, d', ?_, rfl, hnext⟩
        rw [outcome_stateVariable, hright]
        simp [hslots _ _ hslot]
      · cases hok

variable [NestingLimit]

theorem setStatement_simulates {scope scope' : Scope}
    (hoperand : S.Simulates Cursor.Live Cursor.Any id (literalOrConstant scope.constants)
      (literalOrConstant scope'.constants))
    (hslots : ∀ name slot, scope.slots.get? name = some slot → scope'.slots.get? name = some slot) :
    S.Simulates Cursor.Live E id (setStatement scope) (setStatement scope') := by
  have hnumber {E : Cursor → Prop} : S.Simulates Cursor.Live E id (u16Operand scope.constants)
      (u16Operand scope'.constants) := operand_simulates hoperand .u16
  refine .seq (M := Cursor.Live) (keyword_simulates (by decide)) fun _ =>
    .seq (.committed ?_) fun r => .bind (.note _ _) fun _ _ _ =>
      .seq (.same _) fun _ => .pure rfl
  exact .seq space_simulates fun _ => .seq (stateVariable_simulates hslots) fun _ =>
    .seq (nextKeyword_simulates (by decide)) fun _ => .seq space_simulates fun _ =>
      .seq (operand_simulates hoperand .value) fun _ =>
        .seq (nextKeyword_simulates (by decide)) fun _ => .seq space_simulates fun _ =>
          .seq hnumber fun _ => .seq (nextKeyword_simulates (by decide)) fun _ =>
            .seq space_simulates fun _ => .seq hnumber fun _ =>
              .seq (condition_simulates hoperand) fun _ =>
                .seq terminator_simulates fun _ => .pure rfl

/-! ### Choice of a statement -/

/-- A form of a statement that is passed over on the left is passed over on the right. Only a
peripheral has two first tokens. -/
theorem statementForm_passes (scope scope' : Scope) (form : StatementForm) :
    S.Passes Cursor.Any (statementForm scope form) (statementForm scope' form) := by
  have hbinding {word : Text} (hword : word.IsName) :
      S.Passes Cursor.Any (binding scope.constants word) (binding scope'.constants word) :=
    (keyword_passes hword).bind fun _ => .committed _
  cases form with
  | peripheral =>
    apply Alignment.Passes.map
    exact gatewayList_passes.optional_bind (fun _ => .committed _)
      (.bind (keyword_passes (by decide)) fun _ => .committed _)
  | letState =>
    exact ((hbinding (by decide)).bind fun _ => (Sure.committed _).bind fun _ =>
      (Sure.note _).bind fun _ => .pure _).map
  | const => exact ((hbinding (by decide)).bind fun _ => (Sure.note _).bind fun _ => .pure _).map
  | send | setState | doBlock =>
    exact .map (.bind (keyword_passes (by decide)) fun _ => (Sure.committed _).bind fun _ =>
      (Sure.note _).bind fun _ => (Sure.conjunction _).bind fun _ => .pure _)

variable {scope scope' : Scope}

/-- Every form of a statement is read alike, apart from the places that it remembers. -/
theorem statementForm_simulates
    (hoperand : S.Simulates Cursor.Live Cursor.Any id (literalOrConstant scope.constants)
      (literalOrConstant scope'.constants))
    (hslots : ∀ name slot, scope.slots.get? name = some slot → scope'.slots.get? name = some slot)
    (form : StatementForm) :
    S.Simulates Cursor.Live E Statement.unlocated (statementForm scope form)
      (statementForm scope' form) := by
  have hdeclaration : ∀ d d' : Declaration, d'.unlocated = d.unlocated →
      (Statement.declaration d').unlocated = (Statement.declaration d).unlocated :=
    fun _ _ h => congrArg Statement.declaration h
  have hrule : ∀ p p' : EventProcessor, id p' = id p →
      (Statement.rule p').unlocated = (Statement.rule p).unlocated :=
    fun _ _ h => congrArg Statement.rule h
  cases form with
  | peripheral => exact (peripheralStatement_simulates hoperand).map hdeclaration
  | letState => exact (letStatement_simulates hoperand).map hdeclaration
  | const => exact (constStatement_simulates hoperand).map hdeclaration
  | send => exact (sendStatement_simulates hoperand).map hrule
  | doBlock => exact (doStatement_simulates hoperand).map hrule
  | setState => exact (setStatement_simulates hoperand hslots).map hrule

/-- What is read as a statement on the left is read as the same statement on the right. -/
theorem statement_simulates
    (hoperand : S.Simulates Cursor.Live Cursor.Any id (literalOrConstant scope.constants)
      (literalOrConstant scope'.constants))
    (hslots : ∀ name slot, scope.slots.get? name = some slot → scope'.slots.get? name = some slot) :
    S.Simulates Cursor.Live E Statement.unlocated (statement scope) (statement scope') := by
  have halt : S.Simulates Cursor.Live E Statement.unlocated
      (alt (StatementForm.all.map (statementForm scope)))
      (alt (StatementForm.all.map (statementForm scope'))) :=
    .alt_map (fun form _ => statementForm_simulates hoperand hslots form) fun form _ =>
      (statementForm_passes scope scope' form).mono fun _ _ => trivial
  exact halt.relabel (fun _ _ => mapError_eq_ok) fun _ _ => mapError_eq_ok

end Parser

/-! ### Runs -/

/-- After the space, the source ends exactly if nothing else lies ahead. -/
theorem Cursor.atEnd_skipSpace_iff {c : Cursor} : c.skipSpace.atEnd ↔ ¬ c.Live := by
  rw [atEnd, rest_skipSpace, List.isEmpty_iff, List.dropWhile_eq_nil_iff]
  simp [Live]

/-- Something other than space lies ahead on both sides. -/
theorem Alignment.live {S : Alignment} {c d : Cursor} (hrel : S.Rel c d) (hc : c.Live) :
    d.Live := by
  obtain ⟨m, hm, hspace⟩ := hc.head?_skipSpace
  have hright := (S.head?_eq_some_iff (S.skipSpace hrel hc) hspace).2 hm
  exact (Cursor.live_of_head? hspace hright).of_leads d.leads_skipSpace

namespace Progress

variable {S : Alignment} {p q : Progress} {c d c' : Cursor}

/-- A statement that is taken in on the left is taken in on the right. -/
theorem step_follows [NestingLimit] (hrel : S.Rel c d) (h : p.step.outcome c = .ok (q, c')) :
    ∃ d', p.step.outcome d = .ok (q, d') ∧ S.Rel c' d' := by
  obtain ⟨s, hs, hnew, rfl⟩ := step_eq_ok_iff.1 h
  -- the statement on the right differs in the places it remembers, which nothing is decided by
  obtain ⟨s', d', hright, hsame, hnext⟩ := (Parser.statement_simulates (E := Cursor.Any)
    (Parser.literalOrConstant_simulates _) fun _ _ h => h).follows hrel hs trivial
  obtain ⟨hnew', hextend⟩ := add_eq_ok_iff.1
    (add_of_unlocated hsame.symm (add_eq_ok_iff.2 ⟨hnew, rfl⟩))
  exact ⟨d', step_eq_ok_iff.2 ⟨s', hright, hnew', congrArg Prod.snd hextend⟩, hnext⟩

/-- The statements of the left source are taken in on the right too. The run on the right goes on
from where the last of them ends. -/
theorem run_follows [NestingLimit] (hrel : S.Rel c d) (h : (p.run c).outcome = .ok q) :
    ∃ c' d', S.Rel c' d' ∧ ¬ c'.Live ∧ (p.run d).outcome = (q.run d').outcome := by
  -- by induction on what is left on the left; on the right there may always be more
  induction hn : c.remaining using Nat.strongRecOn generalizing p c d with
  | ind n ih =>
    rw [outcome_run] at h
    split at h
    · next hend =>
      cases h
      exact ⟨c, d, hrel, Cursor.atEnd_skipSpace_iff.1 hend, rfl⟩
    · next hlive =>
      rw [Cursor.atEnd_skipSpace_iff, not_not] at hlive
      obtain ⟨⟨p', m⟩, hstep, hrest⟩ := bind_eq_ok.1 h
      obtain ⟨m', hstep', hnext⟩ := step_follows (S.skipSpace hrel hlive) hstep
      obtain ⟨c', d', hlast, hc', hrun⟩ := ih _ (hn ▸ remaining_lt_of_step hstep) hnext hrest rfl
      have hend : ¬ d.skipSpace.atEnd := by
        rw [Cursor.atEnd_skipSpace_iff, not_not]
        exact S.live hrel hlive
      refine ⟨c', d', hlast, hc', ?_⟩
      rw [outcome_run, if_neg hend, hstep']
      exact hrun

end Progress

end EventRules
