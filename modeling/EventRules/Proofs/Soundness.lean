/-
# Parsers yield well-typed data

Under constants that fit, every literal, argument, item, matcher and statement that is read fits as
well. Literals are checked when they are read, arguments when they are converted; the shorthand
forms, which build items without a conversion, take their numbers from operands that were
converted.
-/

import EventRules.Proofs.Typing
import EventRules.Proofs.Yields

namespace EventRules

variable {limit : Width → Nat}

/-- All constants of a table fit. -/
abbrev ConstantsFit (limit : Width → Nat) (constants : Table Text Literal) : Prop :=
  constants.All fun _ l => l.Fits limit

/-- The constants fit, and the slots lie below the limit of their literals. -/
structure Scope.Fits (limit : Width → Nat) (s : Scope) : Prop where
  constants : ConstantsFit limit s.constants
  slots : s.slots.All fun _ slot => slot < limit .u32

/-- What fits a limit fits every larger limit. -/
theorem Literal.Fits.mono {limit' : Width → Nat} (hle : ∀ w, limit w ≤ limit' w) {l : Literal}
    (h : l.Fits limit) : l.Fits limit' := by
  cases l with
  | int w n => exact Nat.lt_of_lt_of_le h (hle w)
  | bool b => trivial
  | string t => exact h
  | colour c => exact h

/-! ### Literals -/

/-- A form holds no double quote in its string. -/
def LiteralForm.Unquoted : LiteralForm → Prop
  | string t => '"' ∉ t
  | _ => True

theorem LiteralForm.lt_of_hex? {a b : Char} {n : Nat} (h : Text.hex? [a, b] = some n) :
    n < 256 := by
  rw [Text.hex?] at h
  split at h
  · next hdigits =>
    cases h
    have hall := List.all_eq_true.1 hdigits.2
    have ha := Text.hexDigitValue_lt (hall a (by simp))
    have hb := Text.hexDigitValue_lt (hall b (by simp))
    simp only [Text.ofDigits, List.foldl_cons, List.foldl_nil]
    omega
  · cases h

/-- Bytes in hexadecimal digits are less than 256. -/
theorem LiteralForm.lt_of_bytes? {digits : Text} {bytes : List Nat}
    (h : bytes? digits = some bytes) : ∀ n ∈ bytes, n < 256 := by
  fun_induction bytes? digits generalizing bytes with
  | case1 => cases h; exact fun _ hn => nomatch hn
  | case2 => cases h
  | case3 a b digits ih =>
    obtain ⟨byte, hbyte, h⟩ := Option.bind_eq_some_iff.1 h
    obtain ⟨rest, hrest, heq⟩ := Option.bind_eq_some_iff.1 h
    cases heq
    exact List.forall_mem_cons.2 ⟨lt_of_hex? hbyte, ih hrest⟩

theorem Colour.components_of_ofComponents? {bytes : List Nat} {c : Colour}
    (h : ofComponents? bytes = some c) : c.components = bytes := by
  unfold ofComponents? at h
  split at h <;> cases h <;> rfl

/-- The check lets only literals through that fit. -/
theorem LiteralForm.fits_of_check {form : LiteralForm} {l : Literal} (hform : form.Unquoted)
    (h : form.check = .ok l) : l.Fits Width.size := by
  cases form with
  | bool b =>
    cases h
    trivial
  | string t =>
    cases h
    exact hform
  | integer digitsAt digits suffixAt suffix =>
    rw [check] at h
    split at h
    · cases h
    · split at h
      · cases h
      · split at h
        · next hle =>
          cases h
          exact Width.lt_size_iff.2 hle
        · cases h
  | colour start digits =>
    rw [check] at h
    split at h
    · next c hc =>
      cases h
      obtain ⟨bytes, hbytes, hcomponents⟩ := Option.bind_eq_some_iff.1 hc
      intro n hn
      rw [Colour.components_of_ofComponents? hcomponents] at hn
      exact lt_of_bytes? hbytes n hn
    · cases h

namespace Parser

/-- Quotations hold no double quote. -/
theorem literalForm_yields : literalForm.Yields LiteralForm.Unquoted := by
  intro c form c' hok
  rw [outcome_literalForm, mapError_eq_ok] at hok
  refine Yields.alt (fun p hp => ?_) hok
  simp only [literalForms, List.mem_cons, List.not_mem_nil, or_false] at hp
  have hinteger : ∀ k, (integerForm k).Yields LiteralForm.Unquoted := fun k =>
    .bind .here fun _ _ => .bind (Parser.run1_yields k) fun _ _ =>
      .bind (Parser.symbol_yields _) fun _ _ => .bind .here fun _ _ =>
        .bind (Parser.run1_yields _) fun _ _ => .pure trivial
  rcases hp with rfl | rfl | rfl | rfl | rfl
  · refine .bind .here fun d _ => ?_
    split <;> exact .bind (Parser.keyword_yields _) fun _ _ => .pure trivial
  · exact hinteger _
  · exact hinteger _
  · exact .bind (Parser.symbol_yields _) fun _ _ => .bind (takeUntil_yields '"') fun _ ht =>
      .bind (Parser.symbol_yields _) fun _ _ => .pure ht
  · exact .bind .here fun _ _ => .bind (Parser.symbol_yields _) fun _ _ =>
      .bind (Parser.run1_yields _) fun _ _ => .pure trivial

/-- A literal that is read fits its type. -/
theorem literal_yields : literal.Yields fun l => l.Fits Width.size :=
  .bind literalForm_yields fun _ hform => .ofExcept fun _ h =>
    LiteralForm.fits_of_check hform (mapError_eq_ok.1 h)

end Parser

section

variable (hlimit : ∀ w : Width, w.size ≤ limit w)
include hlimit

/-! ### Arguments and items -/

/-- Constants that fit stand for literals that fit. -/
theorem Parser.literalOrConstant_yields (constants : Table Text Literal) :
    (literalOrConstant constants).Yields fun l => ConstantsFit limit constants → l.Fits limit := by
  have hliteral : literal.Yields fun l => ConstantsFit limit constants → l.Fits limit :=
    literal_yields.mono fun _ h _ => h.mono hlimit
  intro c l c' hok
  rw [outcome_literalOrConstant] at hok
  split at hok
  · exact hliteral hok
  · next r hname =>
    split at hok
    · next l' hget =>
      cases hok
      exact ⟨(Parser.name_yields hname).1, fun h => h.get? hget⟩
    · exact hliteral hok

/-- An operand fits the type that it is converted to. -/
theorem Parser.operand_yields (constants : Table Text Literal) (p : ParameterType) :
    (operand constants p).Yields fun a => ConstantsFit limit constants → p.Fits limit a :=
  .bind .here fun _ _ => .bind (literalOrConstant_yields hlimit constants) fun _ hl =>
    .ofExcept fun _ h hc => p.fits_of_convert (hl hc) (ParameterType.cast_eq_ok_iff.1 h)

/-- All arguments fit, if the constants do. -/
theorem Parser.argumentList_yields (constants : Table Text Literal) :
    (argumentList constants).Yields fun as =>
      ∀ a ∈ as, ConstantsFit limit constants → a.literal.Fits limit :=
  Parser.list_yields _ (.bind .here fun _ _ =>
    .bind (literalOrConstant_yields hlimit constants) fun _ hl => .pure hl)

omit hlimit in
/-- Written arguments that fit convert to arguments that fit. -/
theorem Arguments.fits_of_convert {miscount : Diagnostic} {ps : List ParameterType}
    {written : List WrittenArgument} {as : Arguments ps}
    (h : Arguments.convert miscount ps written = .ok as)
    (hwritten : ∀ a ∈ written, a.literal.Fits limit) :
    ∀ a ∈ as.toList, a.1.Fits limit a.2 := by
  induction ps generalizing written with
  | nil =>
    cases as
    exact fun _ ha => nomatch ha
  | cons p ps ih =>
    cases written with
    | nil => cases h
    | cons w written =>
      rw [List.forall_mem_cons] at hwritten
      obtain ⟨argument, hargument, h⟩ := bind_eq_ok.1 h
      obtain ⟨rest, hrest, heq⟩ := bind_eq_ok.1 h
      cases heq
      have hconvert := ParameterType.cast_eq_ok_iff.1 hargument
      exact List.forall_mem_cons.2 ⟨p.fits_of_convert hwritten.1 hconvert, ih hrest hwritten.2⟩

omit hlimit in
/-- An item that is built from literals that fit fits as well. -/
theorem Item.fits_of_construct {ν : Type} [ItemName ν] {start : Cursor} {name : ν}
    {written : List WrittenArgument} {i : Item ν} (h : Item.construct start name written = .ok i)
    (hwritten : ∀ a ∈ written, a.literal.Fits limit) : i.Fits limit := by
  rw [construct] at h
  split at h
  · obtain ⟨as, has, heq⟩ := bind_eq_ok.1 h
    cases heq
    exact ⟨as.map_fst_toList, Arguments.fits_of_convert has hwritten⟩
  · cases h

namespace Parser

/-- Calls give items that fit. -/
theorem itemCall_yields (ν : Type) [ItemName ν] (unknown : Problem)
    (constants : Table Text Literal) :
    (itemCall ν unknown constants).Yields fun i =>
      ConstantsFit limit constants → i.Fits limit := by
  refine .bind .here fun start _ => .bind Parser.name_yields fun spelling _ => ?_
  split
  · exact .fail _
  · refine .bind (.committed ?_) fun i hi => .bind (.note _) fun _ _ => .pure hi
    exact .bind Parser.skipSpace_yields fun _ _ =>
      .bind (argumentList_yields hlimit constants) fun written hwritten =>
        .bind Parser.terminator_yields fun _ _ => .ofExcept fun _ h hc =>
          Item.fits_of_construct h fun a ha => hwritten a ha hc

theorem optionalExtractor_yields (constants : Table Text Literal) :
    (optionalExtractor constants).Yields fun e =>
      ConstantsFit limit constants → e.Fits limit := by
  refine .bind (.optional (itemCall_yields hlimit _ _ constants)) fun r hr => .pure fun hc => ?_
  cases r with
  | none => exact ⟨rfl, fun _ h => nomatch h⟩
  | some e => exact hr e rfl hc

/-! ### Matchers -/

omit hlimit in
/-- A number of 16 bits makes a matcher that fits. -/
theorem equalToU16_fits (extractor : ExtractorName) {n : Nat} (h : n < limit .u16) :
    (Matcher.equalToU16 extractor n).Fits limit :=
  ⟨⟨rfl, fun _ ha => nomatch ha⟩, rfl, List.forall_mem_cons.2 ⟨h, fun _ ha => nomatch ha⟩⟩

omit hlimit in
/-- A conjunction of matchers that fit fits. -/
theorem conjoin_fits {first : Matcher} {rest : List Matcher} (hfirst : first.Fits limit)
    (hrest : ∀ m ∈ rest, m.Fits limit) : (Matcher.conjoin first rest).Fits limit := by
  induction rest generalizing first with
  | nil => exact hfirst
  | cons m rest ih =>
    rw [List.forall_mem_cons] at hrest
    exact ih ⟨hfirst, hrest.1⟩ hrest.2

omit hlimit in
theorem clauseTerminator_yields : clauseTerminator.Forward := by
  intro c a c' hok
  rw [outcome_clauseTerminator] at hok
  split at hok
  · split at hok <;> cases hok
    · exact ⟨c.leads_skipSpace.trans (c.skipSpace.leads_advance 1), trivial⟩
    · exact ⟨.refl c, trivial⟩
  · exact Parser.terminator_yields hok

theorem numberForm_yields (constants : Table Text Literal) (word : Text)
    (extractor : ExtractorName) :
    (numberForm constants word (Matcher.equalToU16 extractor)).Yields fun m =>
      ConstantsFit limit constants → m.Fits limit :=
  .bind (Parser.keyword_yields _) fun _ _ => .committed <| .bind Parser.space_yields fun _ _ =>
    .bind (operand_yields hlimit constants .u16) fun _ hn => .pure fun hc =>
      equalToU16_fits extractor (hn hc)

theorem blockForm_yields (constants : Table Text Literal) :
    (blockForm constants).Yields fun m => ConstantsFit limit constants → m.Fits limit :=
  .bind (Parser.symbol_yields _) fun _ _ => .committed <|
    .bind Parser.skipSpace_yields fun _ _ =>
      .bind (optionalExtractor_yields hlimit constants) fun _ he =>
        .bind Parser.skipSpace_yields fun _ _ =>
          .bind (itemCall_yields hlimit _ _ constants) fun _ hf =>
            .bind (Parser.nextSymbol_yields _) fun _ _ => .pure fun hc => ⟨he hc, hf hc⟩

omit hlimit in
/-- A matcher with two operands fits if they do. -/
theorem binaryForm_yields {C : Prop} {inner : Parser Matcher}
    (hinner : inner.Yields fun m => C → m.Fits limit) (word : Text)
    {build : Matcher → Matcher → Matcher}
    (hbuild : ∀ l r, l.Fits limit → r.Fits limit → (build l r).Fits limit) :
    (binaryForm inner word build).Yields fun m => C → m.Fits limit :=
  .bind (Parser.keyword_yields _) fun _ _ => .committed <|
    .bind (Parser.nextSymbol_yields _) fun _ _ => .bind Parser.skipSpace_yields fun _ _ =>
      .bind hinner fun _ hl => .bind (Parser.nextSymbol_yields _) fun _ _ =>
        .bind Parser.skipSpace_yields fun _ _ => .bind hinner fun _ hr =>
          .bind (Parser.nextSymbol_yields _) fun _ _ => .pure fun hc => hbuild _ _ (hl hc) (hr hc)

/-- The one number that is not written, the code of a tick, fits as well. -/
theorem matcherForm_yields (constants : Table Text Literal) {inner : Parser Matcher}
    (hinner : inner.Yields fun m => ConstantsFit limit constants → m.Fits limit)
    (form : MatcherForm) :
    (matcherForm constants inner form).Yields fun m =>
      ConstantsFit limit constants → m.Fits limit := by
  cases form with
  | event | producer => exact numberForm_yields hlimit constants _ _
  | tick =>
    have htick : EventCode.internalSystemTick < Width.u16.size := by decide
    exact .bind (Parser.keyword_yields _) fun _ _ => .pure fun _ =>
      equalToU16_fits _ (Nat.lt_of_lt_of_le htick (hlimit .u16))
  | block => exact blockForm_yields hlimit constants
  | negation =>
    exact .bind (Parser.keyword_yields _) fun _ _ => .committed <|
      .bind (Parser.nextSymbol_yields _) fun _ _ => .bind Parser.skipSpace_yields fun _ _ =>
        .bind hinner fun _ hm => .bind (Parser.nextSymbol_yields _) fun _ _ => .pure hm
  | disjunction | conjunction => exact binaryForm_yields hinner _ fun _ _ hl hr => ⟨hl, hr⟩

/-- Matchers fit, in any number of levels. -/
theorem matcherIn_yields (constants : Table Text Literal) (forms : List MatcherForm)
    (levels : Nat) :
    (matcherIn constants forms levels).Yields fun m =>
      ConstantsFit limit constants → m.Fits limit := by
  induction levels with
  | zero => exact .bind .here fun _ _ => .fail _
  | succ levels ih =>
    refine .alt fun p hp => ?_
    obtain ⟨form, -, rfl⟩ := List.mem_map.1 hp
    exact matcherForm_yields hlimit constants ih form

theorem matchClause_takes [NestingLimit] (constants : Table Text Literal) :
    (matchClause constants).Takes fun m => ConstantsFit limit constants → m.Fits limit :=
  .bind (keyword_takes (by decide)) fun _ _ => .committed <|
    .bind Parser.skipSpace_yields fun _ _ => matcherIn_yields hlimit constants _ _

theorem condition_yields [NestingLimit] (constants : Table Text Literal) :
    (condition constants).Yields fun r =>
      ∀ m, r = some m → ConstantsFit limit constants → m.Fits limit := by
  refine .bind (.optional (Parser.nextKeyword_yields _)) fun r _ => ?_
  split
  · exact .pure fun _ h => nomatch h
  · refine .committed (.bind Parser.space_yields fun _ _ =>
      .bind (matchClause_takes hlimit constants).yields fun m hm => .pure fun _ h => ?_)
    cases h
    exact hm

end Parser

end

/-! ### Statements -/

/-- What a declaration introduces fits. -/
def Declaration.Fits (limit : Width → Nat) : Declaration → Prop
  | constant _ l _ => l.Fits limit
  | state _ v _ => v.Fits limit
  | peripheral index p _ _ => index < limit .u32 ∧ p.Fits limit

/-- What a statement says fits. -/
def Statement.Fits (limit : Width → Nat) : Statement → Prop
  | declaration d => d.Fits limit
  | rule p => p.Fits limit
  | clause m => m.Fits limit

section

variable (hlimit : ∀ w : Width, w.size ≤ limit w)
include hlimit

namespace Parser

theorem binding_takes (constants : Table Text Literal) {word : Text} (hword : word ≠ []) :
    (binding constants word).Takes fun b =>
      ConstantsFit limit constants → b.literal.Fits limit :=
  .bind (keyword_takes hword) fun _ _ => .committed <| .bind Parser.space_yields fun _ _ =>
    .bind .here fun _ _ => .bind Parser.name_yields fun _ _ =>
      .bind (Parser.nextSymbol_yields _) fun _ _ => .bind Parser.skipSpace_yields fun _ _ =>
        .bind .here fun _ _ => .bind (literalOrConstant_yields hlimit constants) fun _ hl =>
          .bind Parser.terminator_yields fun _ _ => .pure hl

theorem constStatement_takes (constants : Table Text Literal) :
    (constStatement constants).Takes fun d => ConstantsFit limit constants → d.Fits limit :=
  .bind (binding_takes hlimit constants (by decide)) fun _ hb => .bind (.note _) fun _ _ => .pure hb

theorem letStatement_takes (constants : Table Text Literal) :
    (letStatement constants).Takes fun d => ConstantsFit limit constants → d.Fits limit :=
  .bind (binding_takes hlimit constants (by decide)) fun _ hb =>
    .bind (.committed (.ofExcept fun _ h hc =>
      ParameterType.value.fits_of_convert (hb hc) (ParameterType.cast_eq_ok_iff.1 h))) fun _ hv =>
      .bind (.note _) fun _ _ => .pure hv

/-- The gateways are numbers of 16 bits. -/
theorem gatewayList_takes (constants : Table Text Literal) :
    (gatewayList constants).Takes fun as =>
      ConstantsFit limit constants → ∀ address ∈ as, address < limit .u16 := by
  refine .bind (keyword_takes (by decide)) fun _ _ => .committed <|
    .bind Parser.skipSpace_yields fun _ _ =>
      .bind (argumentList_yields hlimit constants) fun written hwritten =>
        .bind (V := fun as => ConstantsFit limit constants → ∀ a ∈ as, a < limit .u16)
          (.ofExcept fun as has hc address haddress => ?_) fun _ has =>
          .bind Parser.space_yields fun _ _ => .pure has
  obtain ⟨w, hw, hcast⟩ := exists_of_mem_mapM has haddress
  exact ParameterType.u16.fits_of_convert (hwritten w hw hc) (ParameterType.cast_eq_ok_iff.1 hcast)

theorem shape_yields (constants : Table Text Literal) (familyWord : Text) :
    (shape constants familyWord).Yields fun s => ConstantsFit limit constants → s.Fits limit :=
  .bind (.demand _ _) fun _ _ => .bind .here fun _ _ =>
    .bind (Parser.keywordChoice_yields _) fun _ _ => .bind (.demand _ _) fun _ _ =>
      .bind Parser.skipSpace_yields fun _ _ =>
        .bind (argumentList_yields hlimit constants) fun _ hwritten =>
          .bind Parser.terminator_yields fun _ _ => .ofExcept fun _ h hc =>
            Item.fits_of_construct h fun a ha => hwritten a ha hc

/-- A peripheral fits if its gateways do. -/
theorem peripheralBody_yields (constants : Table Text Literal) {gateways : List Nat}
    (hgateways : ConstantsFit limit constants → ∀ address ∈ gateways, address < limit .u16) :
    (peripheralBody constants gateways).Yields fun d =>
      ConstantsFit limit constants → d.Fits limit :=
  .bind Parser.space_yields fun _ _ => .bind .here fun _ _ =>
    .bind (operand_yields hlimit constants .u32) fun _ hindex => .bind .here fun _ _ =>
      .bind Parser.space_yields fun _ _ =>
        .bind (Parser.keywordChoice_yields _) fun familyWord _ =>
          .bind Parser.space_yields fun _ _ =>
            .bind (shape_yields hlimit constants familyWord) fun _ hs =>
              .bind (.note _) fun _ _ => .pure fun hc => ⟨hindex hc, hs hc, hgateways hc⟩

theorem peripheralStatement_takes (constants : Table Text Literal) :
    (peripheralStatement constants).Takes fun d =>
      ConstantsFit limit constants → d.Fits limit := by
  refine .after (.optional (gatewayList_takes hlimit constants).yields) fun r hr => ?_
  split
  · exact .bind (keyword_takes (by decide)) fun _ _ => .committed <|
      peripheralBody_yields hlimit constants fun _ _ h => nomatch h
  · exact .committed <| .bind (keyword_takes (by decide)) fun _ _ =>
      peripheralBody_yields hlimit constants (hr _ rfl)

omit hlimit in
/-- The matchers for an event, its producer and a condition fit. -/
theorem eventMatchers_fit {event address : Nat} {condition : Option Matcher}
    (hevent : event < limit .u16) (haddress : address < limit .u16)
    (hcondition : ∀ m, condition = some m → m.Fits limit) :
    ∀ m ∈ eventMatchers event address condition, m.Fits limit := by
  refine List.forall_mem_cons.2 ⟨equalToU16_fits _ hevent, List.forall_mem_cons.2
    ⟨equalToU16_fits _ haddress, fun m hm => hcondition m ?_⟩⟩
  simpa using hm

omit hlimit in
/-- The conjunction of matchers that fit fits. -/
theorem conjunction_yields {ms : List Matcher} {P : Prop} (h : P → ∀ m ∈ ms, m.Fits limit) :
    (conjunction ms).Yields fun m => P → m.Fits limit := by
  cases ms with
  | nil => exact .ofExcept fun _ h => nomatch h
  | cons m ms =>
    exact .pure fun hP => conjoin_fits (h hP m List.mem_cons_self) fun m hm =>
      h hP m (List.mem_cons_of_mem _ hm)

variable [NestingLimit]

theorem sendStatement_takes (constants : Table Text Literal) :
    (sendStatement constants).Takes fun p => ConstantsFit limit constants → p.Fits limit := by
  refine .bind (keyword_takes (by decide)) fun _ _ => .bind (V := fun r =>
    ConstantsFit limit constants → (∀ m ∈ eventMatchers r.1 r.2.1 r.2.2.2, m.Fits limit) ∧
      r.2.2.1 < limit .u16) (.committed ?_) fun r hr =>
        .bind (.note _) fun _ _ =>
          .bind (conjunction_yields fun hc => (hr hc).1) fun m hm => .pure fun hc => ?_
  · exact .bind Parser.space_yields fun _ _ =>
      .bind (operand_yields hlimit constants .u16) fun _ hevent =>
        .bind (Parser.nextKeyword_yields _) fun _ _ => .bind Parser.space_yields fun _ _ =>
          .bind (operand_yields hlimit constants .u16) fun _ haddress =>
            .bind (Parser.nextKeyword_yields _) fun _ _ => .bind Parser.space_yields fun _ _ =>
              .bind (operand_yields hlimit constants .u16) fun _ hreceiver =>
                .bind (condition_yields hlimit constants) fun _ hcondition =>
                  .bind Parser.terminator_yields fun _ _ => .pure fun hc =>
                    ⟨eventMatchers_fit (hevent hc) (haddress hc) fun m hm => hcondition m hm hc,
                      hreceiver hc⟩
  · refine ⟨hm hc, List.forall_mem_cons.2 ⟨⟨⟨rfl, fun _ h => nomatch h⟩, ⟨rfl, ?_⟩,
      fun _ h => nomatch h⟩, fun _ h => nomatch h⟩⟩
    exact List.forall_mem_cons.2 ⟨(hr hc).2, fun _ h => nomatch h⟩

omit hlimit [NestingLimit] in
/-- State variables have slots of 32 bits, if the table has. -/
theorem stateVariable_yields (slots : Table Text Nat) :
    (stateVariable slots).Yields fun slot =>
      (slots.All fun _ slot => slot < limit .u32) → slot < limit .u32 := by
  intro c slot c' hok
  rw [outcome_stateVariable] at hok
  split at hok
  · cases hok
  · next r hname =>
    split at hok
    · next slot' hget =>
      cases hok
      exact ⟨(Parser.name_yields hname).1, fun h => h.get? hget⟩
    · cases hok

/-- The value and the slot of a rule that sets a state variable fit. -/
theorem setStatement_takes (scope : Scope) :
    (setStatement scope).Takes fun p => scope.Fits limit → p.Fits limit := by
  refine .bind (keyword_takes (by decide)) fun _ _ => .bind (V := fun r =>
    scope.Fits limit → (∀ m ∈ eventMatchers r.2.2.1 r.2.2.2.1 r.2.2.2.2, m.Fits limit) ∧
      r.1 < limit .u32 ∧ r.2.1.Fits limit) (.committed ?_) fun r hr =>
        .bind (.note _) fun _ _ =>
          .bind (conjunction_yields fun hs => (hr hs).1) fun m hm => .pure fun hs => ?_
  · exact .bind Parser.space_yields fun _ _ =>
      .bind (stateVariable_yields scope.slots) fun _ hslot =>
        .bind (Parser.nextKeyword_yields _) fun _ _ => .bind Parser.space_yields fun _ _ =>
          .bind (operand_yields hlimit scope.constants .value) fun _ hvalue =>
            .bind (Parser.nextKeyword_yields _) fun _ _ => .bind Parser.space_yields fun _ _ =>
              .bind (operand_yields hlimit scope.constants .u16) fun _ hevent =>
                .bind (Parser.nextKeyword_yields _) fun _ _ => .bind Parser.space_yields fun _ _ =>
                  .bind (operand_yields hlimit scope.constants .u16) fun _ haddress =>
                    .bind (condition_yields hlimit scope.constants) fun _ hcondition =>
                      .bind Parser.terminator_yields fun _ _ => .pure fun hs =>
                        ⟨eventMatchers_fit (hevent hs.constants) (haddress hs.constants)
                          fun m hm => hcondition m hm hs.constants,
                          hslot hs.slots, hvalue hs.constants⟩
  · obtain ⟨-, hslot, hvalue⟩ := hr hs
    refine ⟨⟨hm hs, ⟨rfl, fun _ h => nomatch h⟩, rfl, ?_⟩, fun _ h => nomatch h⟩
    exact List.forall_mem_cons.2 ⟨hslot, List.forall_mem_cons.2 ⟨hvalue, fun _ h => nomatch h⟩⟩

theorem fireClause_takes (constants : Table Text Literal) :
    (fireClause constants).Takes fun c => ConstantsFit limit constants → c.Fits limit :=
  .bind (keyword_takes (by decide)) fun _ _ => .committed <|
    .bind (Parser.nextSymbol_yields _) fun _ _ => .bind Parser.skipSpace_yields fun _ _ =>
      .bind (optionalExtractor_yields hlimit constants) fun _ he =>
        .bind Parser.skipSpace_yields fun _ _ =>
          .bind (itemCall_yields hlimit _ _ constants) fun _ hp =>
            .bind (Parser.nextSymbol_yields _) fun _ _ =>
              .bind (condition_yields hlimit constants) fun _ hg => .pure fun hc =>
                ⟨he hc, hp hc, fun m hm => hg m hm hc⟩

omit hlimit [NestingLimit] in
theorem blockClause_takes {α : Type} {clause : Parser α} {V : α → Prop} (h : clause.Takes V) :
    (blockClause clause).Takes V :=
  .after Parser.skipSpace_yields fun _ _ => .bind h fun _ ha =>
    .bind clauseTerminator_yields.committed fun _ _ => .pure ha

/-- The rule of a block fits. -/
theorem doStatement_takes (constants : Table Text Literal) :
    (doStatement constants).Takes fun p => ConstantsFit limit constants → p.Fits limit := by
  refine .bind (keyword_takes (by decide)) fun _ _ => .bind
    (V := fun r : List Matcher × List Creator => ConstantsFit limit constants →
      (∀ m ∈ r.1, m.Fits limit) ∧ ∀ c ∈ r.2, c.Fits limit)
    (.committed ?_) fun r hr => .bind (.note _) fun _ _ =>
      .bind (conjunction_yields fun hc => (hr hc).1) fun _ hm => .pure fun hc =>
        ⟨hm hc, (hr hc).2⟩
  exact .bind (Parser.nextSymbol_yields _) fun _ _ =>
    .bind (.many1 (blockClause_takes (matchClause_takes hlimit constants)).yields) fun _ hm =>
      .bind (.many0 (blockClause_takes (fireClause_takes hlimit constants)).yields) fun _ hf =>
        .bind (Parser.nextSymbol_yields _) fun _ _ =>
          .bind clauseTerminator_yields fun _ _ => .pure fun hc =>
            ⟨fun m hmem => hm.2 m hmem hc, fun c hmem => hf c hmem hc⟩

/-- Every form of a statement gives data that fit. -/
theorem statementForm_takes (scope : Scope) (form : StatementForm) :
    (statementForm scope form).Takes fun s => scope.Fits limit → s.Fits limit := by
  cases form with
  | peripheral =>
    exact .map ((peripheralStatement_takes hlimit scope.constants).mono fun _ h hs =>
      h hs.constants)
  | letState =>
    exact .map ((letStatement_takes hlimit scope.constants).mono fun _ h hs => h hs.constants)
  | const =>
    exact .map ((constStatement_takes hlimit scope.constants).mono fun _ h hs => h hs.constants)
  | send =>
    exact .map ((sendStatement_takes hlimit scope.constants).mono fun _ h hs => h hs.constants)
  | doBlock =>
    exact .map ((doStatement_takes hlimit scope.constants).mono fun _ h hs => h hs.constants)
  | setState => exact .map (setStatement_takes hlimit scope)

/-- A statement that is read in a scope that fits, fits; and it consumes text. -/
theorem statement_takes (scope : Scope) :
    (statement scope).Takes fun s => scope.Fits limit → s.Fits limit := by
  have halt := Takes.alt (V := fun s : Statement => scope.Fits limit → s.Fits limit)
    (List.forall_mem_map.2 fun form (_ : form ∈ StatementForm.all) =>
      statementForm_takes hlimit scope form)
  constructor <;> intro c s c' hok <;>
    rw [statement, outcome_statementIn, mapError_eq_ok] at hok
  · exact halt.yields hok
  · exact halt.consumes hok

end Parser

end

end EventRules
