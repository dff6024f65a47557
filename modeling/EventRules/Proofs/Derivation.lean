/-
# Derivations

The grammar of matchers and of the items in them, as derivations between two cursors. Space may
stand around braces, commas and items but neither before nor after a matcher, and every keyword ends
where a name would end. What an operand is, the reader of literals and constants says.

The call of an item is read exactly where it is derived.
-/

import EventRules.Proofs.Commitment
import EventRules.Proofs.Crossing
import EventRules.Proofs.Soundness

namespace EventRules

/-! ### The grammar -/

section Grammar

variable (constants : Table Text Literal)

/-- A literal or a constant. -/
def OperandAt (c : Cursor) (l : Literal) (d : Cursor) : Prop :=
  (Parser.literalOrConstant constants).outcome c = .ok (l, d)

/-- One or more operands with commas between. -/
inductive OperandsAt : Cursor → List Literal → Cursor → Prop
  | one {c d : Cursor} {l : Literal} (hfirst : OperandAt constants c l d) : OperandsAt c [l] d
  | cons {c c₁ c₂ c₃ d : Cursor} {l : Literal} {ls : List Literal}
      (hfirst : OperandAt constants c l c₁) (hcomma : c₁.Mark ',' c₂) (hspace : c₂.Blanks c₃)
      (hrest : OperandsAt c₃ ls d) : OperandsAt c (l :: ls) d

/-- Operands in parentheses. -/
inductive ArgumentsAt : Cursor → List Literal → Cursor → Prop
  | none {c c₁ d : Cursor} (hopen : c.Crosses "(" c₁) (hclose : c₁.Mark ')' d) :
      ArgumentsAt c [] d
  | some {c c₁ c₂ c₃ d : Cursor} {ls : List Literal} (hopen : c.Crosses "(" c₁)
      (hspace : c₁.Blanks c₂) (hoperands : OperandsAt constants c₂ ls c₃)
      (hclose : c₃.Mark ')' d) : ArgumentsAt c ls d

/-- An item: its name, its arguments as operands that convert to them, and a semicolon. -/
inductive CallAt {ν : Type} [ItemName ν] : Cursor → Item ν → Cursor → Prop
  | call {c c₁ c₂ c₃ d : Cursor} {i : Item ν} {ls : List Literal}
      (hname : c.Word (ItemName.spelling i.name) c₁) (hspace : c₁.Blanks c₂)
      (harguments : ArgumentsAt constants c₂ ls c₃) (hend : c₃.Mark ';' d)
      (hconvert : List.Forall₂ (fun l a => a.1.convert l = .ok a.2) ls i.arguments.toList) :
      CallAt c i d

/-- A matcher. An event or a producer is told by a number of 16 bits, and a tick by that of its
event, which is 10. -/
inductive MatcherAt : Cursor → Matcher → Cursor → Prop
  | event {c c₁ c₂ d : Cursor} {n : Nat} (hword : c.Word "event" c₁) (hspace : c₁.Blanks c₂)
      (hne : c₂ ≠ c₁) (hcode : OperandAt constants c₂ (.int .u16 n) d) :
      MatcherAt c
        (.single ⟨.eventCode, .nil⟩ ⟨.valueEqualToConst, .cons (.int .u16 n) .nil⟩) d
  | producer {c c₁ c₂ d : Cursor} {n : Nat} (hword : c.Word "producer" c₁)
      (hspace : c₁.Blanks c₂) (hne : c₂ ≠ c₁)
      (haddress : OperandAt constants c₂ (.int .u16 n) d) :
      MatcherAt c
        (.single ⟨.eventProducerAddress, .nil⟩ ⟨.valueEqualToConst, .cons (.int .u16 n) .nil⟩) d
  | tick {c d : Cursor} (hword : c.Word "tick" d) :
      MatcherAt c
        (.single ⟨.eventCode, .nil⟩ ⟨.valueEqualToConst, .cons (.int .u16 10) .nil⟩) d
  | filter {c c₁ c₂ c₃ d : Cursor} {f : Filter} (hopen : c.Crosses "\x7b" c₁)
      (hspace : c₁.Blanks c₂) (hfilter : CallAt constants c₂ f c₃) (hclose : c₃.Mark '}' d) :
      MatcherAt c (.single ⟨.nothing, .nil⟩ f) d
  | extraction {c c₁ c₂ c₃ c₄ c₅ d : Cursor} {e : Extractor} {f : Filter}
      (hopen : c.Crosses "\x7b" c₁) (hspace : c₁.Blanks c₂)
      (hextractor : CallAt constants c₂ e c₃) (hspace' : c₃.Blanks c₄)
      (hfilter : CallAt constants c₄ f c₅) (hclose : c₅.Mark '}' d) :
      MatcherAt c (.single e f) d
  | not {c c₁ c₂ c₃ c₄ d : Cursor} {m : Matcher} (hword : c.Word "not" c₁)
      (hopen : c₁.Mark '{' c₂) (hspace : c₂.Blanks c₃) (hinner : MatcherAt c₃ m c₄)
      (hclose : c₄.Mark '}' d) : MatcherAt c (.not m) d
  | or {c c₁ c₂ c₃ c₄ c₅ c₆ c₇ d : Cursor} {l r : Matcher} (hword : c.Word "or" c₁)
      (hopen : c₁.Mark '{' c₂) (hspace : c₂.Blanks c₃) (hleft : MatcherAt c₃ l c₄)
      (hcomma : c₄.Mark ',' c₅) (hspace' : c₅.Blanks c₆) (hright : MatcherAt c₆ r c₇)
      (hclose : c₇.Mark '}' d) : MatcherAt c (.or l r) d
  | and {c c₁ c₂ c₃ c₄ c₅ c₆ c₇ d : Cursor} {l r : Matcher} (hword : c.Word "and" c₁)
      (hopen : c₁.Mark '{' c₂) (hspace : c₂.Blanks c₃) (hleft : MatcherAt c₃ l c₄)
      (hcomma : c₄.Mark ',' c₅) (hspace' : c₅.Blanks c₆) (hright : MatcherAt c₆ r c₇)
      (hclose : c₇.Mark '}' d) : MatcherAt c (.and l r) d

end Grammar

variable {constants : Table Text Literal}

/-! ### Operands -/

namespace Parser

/-- No form of a literal starts with space or with a closing parenthesis. -/
theorem literal_opens : literal.Opens fun ch => !(isSpace ch || ch = ')') := by
  have hrun : ∀ k : CharClass, Solid k.contains → k.contains ')' = false →
      (run1 k).Opens fun ch => !(isSpace ch || ch = ')') := by
    intro k hsolid hclose
    refine run1_opens fun ch hch => ?_
    rw [Bool.not_eq_true', Bool.or_eq_false_iff, decide_eq_false_iff_not]
    constructor
    · refine Bool.eq_false_iff.2 fun hspace => ?_
      simp [hsolid.not_of_isSpace hspace] at hch
    · rintro rfl
      simp [hclose] at hch
  have hforms : ∀ p ∈ literalForms, p.Opens fun ch => !(isSpace ch || ch = ')') := by
    simp only [literalForms, List.forall_mem_cons, List.not_mem_nil, false_implies, implies_true,
      and_true]
    refine ⟨.here_bind fun c => ?_, .here_bind fun _ => (hrun _ (by decide) (by decide)).bind,
      .here_bind fun _ => (hrun _ (by decide) (by decide)).bind, (symbol_opens (by decide)).bind,
      .here_bind fun _ => (symbol_opens (by decide)).bind⟩
    split <;> exact (keyword_opens (Text.starts_cons.2 (by decide))).bind
  have hform : literalForm.Opens fun ch => !(isSpace ch || ch = ')') := by
    intro c r hok
    rw [outcome_literalForm, mapError_eq_ok] at hok
    obtain ⟨p, hp, hok⟩ := exists_of_choice_eq_ok hok
    exact hforms p hp hok
  exact hform.bind

theorem literalOrConstant_opens :
    (literalOrConstant constants).Opens fun ch => !(isSpace ch || ch = ')') := by
  intro c r hok
  rw [outcome_literalOrConstant] at hok
  split at hok
  · exact literal_opens hok
  · next hname =>
    refine name_opens (fun ch hch => ?_) hname
    rw [Bool.not_eq_true', Bool.or_eq_false_iff, decide_eq_false_iff_not]
    refine ⟨not_isSpace_of_isNameStart ch hch, ?_⟩
    rintro rfl
    exact absurd hch (by decide)

theorem operand_opens (p : ParameterType) : (operand constants p).Opens fun ch => !isSpace ch :=
  .here_bind fun _ => (literalOrConstant_opens.mono fun ch hch => by
    simpa using Literal.not_isSpace ch hch).bind

end Parser

namespace OperandAt

variable {c d : Cursor} {l : Literal}

theorem stops (h : OperandAt constants c l d) : c.rest.Stops isSpace :=
  (Parser.literalOrConstant_opens h).stops Literal.not_isSpace

/-- An operand is not the closing parenthesis. -/
theorem peek_ne (h : OperandAt constants c l d) : c.peek ≠ ")" :=
  Cursor.peek_ne_of_starts (m := ')') (Parser.literalOrConstant_opens h) (by decide)

theorem leads (h : OperandAt constants c l d) : c.Leads d :=
  (Parser.literalOrConstant_yields (fun _ => Nat.le_refl _) constants h).1

end OperandAt

namespace Parser

variable {c c' d : Cursor}

/-- An operand of a type is one that converts to it. -/
theorem operand_eq_ok_iff {p : ParameterType} {a : p.Argument} :
    (operand constants p).outcome c = .ok (a, d) ↔
      ∃ l, OperandAt constants c l d ∧ p.convert l = .ok a := by
  rw [operand, outcome_bind, outcome_here, ok_bind, bind_outcome_eq_ok_iff]
  simp only [outcome_ofExcept, map_eq_ok, ParameterType.cast_eq_ok_iff]
  constructor
  · rintro ⟨l, e, hl, a, ha, heq⟩
    cases heq
    exact ⟨l, hl, ha⟩
  · rintro ⟨l, hl, ha⟩
    exact ⟨l, d, hl, a, ha, rfl⟩

/-- An operand of 16 bits is an integer that is written as one. -/
theorem u16Operand_eq_ok_iff {n : Nat} :
    (u16Operand constants).outcome c = .ok (n, d) ↔ OperandAt constants c (.int .u16 n) d := by
  have hconvert : ∀ l, ParameterType.u16.convert l = .ok n ↔ l = .int .u16 n := by
    intro l
    cases l with
    | int width k => cases width <;> simp [ParameterType.convert]
    | bool _ | string _ | colour _ => simp [ParameterType.convert]
  rw [u16Operand, operand_eq_ok_iff]
  simp only [hconvert, exists_eq_right]

/-- An argument is an operand and the place where it stands. -/
theorem writtenArgument_eq_ok_iff {w : WrittenArgument} :
    (writtenArgument constants).outcome c = .ok (w, d) ↔
      w.location = c ∧ OperandAt constants c w.literal d := by
  rw [writtenArgument, outcome_bind, outcome_here, ok_bind, bind_outcome_eq_ok_iff]
  constructor
  · rintro ⟨l, e, hl, heq⟩
    cases heq
    exact ⟨rfl, hl⟩
  · rintro ⟨rfl, h⟩
    exact ⟨w.literal, d, h, rfl⟩

/-- The elements of a list behind an operand make it a list of operands. -/
theorem operandsAt_of_moreElements {l : Literal} {ws : List WrittenArgument}
    (hfirst : OperandAt constants c l c')
    (hmore : (moreElements "," (writtenArgument constants)).outcome c' = .ok (ws, d)) :
    OperandsAt constants c (l :: ws.map (·.literal)) d := by
  induction ws generalizing c c' l with
  | nil =>
    rw [outcome_moreElements] at hmore
    split at hmore
    · obtain ⟨r, -, hmore⟩ := bind_eq_ok.1 hmore
      split at hmore
      · obtain ⟨_, -, heq⟩ := bind_eq_ok.1 hmore
        cases heq
      · cases hmore
    · cases hmore
      exact .one hfirst
  | cons w ws ih =>
    rw [outcome_moreElements] at hmore
    split at hmore
    · next hpeek =>
      have hcomma : c'.Mark ',' (c'.skipSpace.advance 1) :=
        (Cursor.mark_iff (by decide)).2 ⟨hpeek, rfl⟩
      have hspace := Cursor.blanks_skipSpace (c'.skipSpace.inSource_advance 1)
      obtain ⟨⟨v, e⟩, helement, hmore⟩ := bind_eq_ok.1 hmore
      have hnext := (writtenArgument_eq_ok_iff.1 helement).2
      split at hmore
      · obtain ⟨⟨vs, e'⟩, hrest, heq⟩ := bind_eq_ok.1 hmore
        cases heq
        exact .cons hfirst hcomma hspace (ih hnext hrest)
      · cases hmore
        exact .cons hfirst hcomma hspace (.one hnext)
    · cases hmore

/-- Behind a comma and space, one more operand is read. -/
theorem moreElements_comma {c₁ c₂ c₃ c₄ : Cursor} {l : Literal} (hcomma : c₁.Mark ',' c₂)
    (hspace : c₂.Blanks c₃) (hl : OperandAt constants c₃ l c₄) :
    (moreElements "," (writtenArgument constants)).outcome c₁ =
      (moreElements "," (writtenArgument constants)).outcome c₄ >>= fun r =>
        .ok (⟨c₃, l⟩ :: r.1, r.2) := by
  obtain ⟨hpeek, rfl⟩ := (Cursor.mark_iff (by decide)).1 hcomma
  have helement : (writtenArgument constants).outcome c₃ = .ok (⟨c₃, l⟩, c₄) :=
    writtenArgument_eq_ok_iff.2 ⟨rfl, hl⟩
  have hlead : (c₁.skipSpace.advance 1).Leads c₄ := hspace.leads.trans hl.leads
  have hlt : c₄.remaining < c₁.remaining :=
    (hcomma.leads.trans hlead).remaining_lt (hlead.length_le.trans_lt hcomma.length_lt)
  rw [outcome_moreElements, if_pos (show c₁.skipSpace.peek = "," from hpeek),
    hspace.skipSpace_eq hl.stops, helement, ok_bind, if_pos hlt]

/-- Operands are read as a list, if no comma follows. -/
theorem moreElements_of_operandsAt {ls : List Literal} (h : OperandsAt constants c ls d)
    (hend : d.skipSpace.peek ≠ ",") :
    ∃ l c' ws, OperandAt constants c l c' ∧ ls = l :: ws.map WrittenArgument.literal ∧
      (moreElements "," (writtenArgument constants)).outcome c' = .ok (ws, d) := by
  induction h with
  | @one c d l hfirst =>
    refine ⟨l, d, [], hfirst, rfl, ?_⟩
    rw [outcome_moreElements, if_neg hend]
  | @cons c c₁ c₂ c₃ d l ls hfirst hcomma hspace hrest ih =>
    obtain ⟨l', c', ws, hnext, rfl, hmore⟩ := ih hend
    refine ⟨l, c₁, ⟨c₃, l'⟩ :: ws, hfirst, rfl, ?_⟩
    rw [moreElements_comma hcomma hspace hnext, hmore]
    rfl

/-- Between the parentheses stand no arguments, or a first one and more. -/
theorem argumentList_eq_ok_iff {ws : List WrittenArgument} :
    (argumentList constants).outcome c = .ok (ws, d) ↔
      ∃ c₁ c₂, c.Crosses "(" c₁ ∧ c₂.Mark ')' d ∧
        if c₁.skipSpace.peek = ")" then ws = [] ∧ c₂ = c₁.skipSpace
        else ∃ w c' rest, ws = w :: rest ∧
          (writtenArgument constants).outcome c₁.skipSpace = .ok (w, c') ∧
          (moreElements "," (writtenArgument constants)).outcome c' = .ok (rest, c₂) := by
  rw [argumentList, list, bind_outcome_eq_ok_iff]
  constructor
  · rintro ⟨_, c₁, hopen, h⟩
    refine ⟨c₁, ?_⟩
    rw [outcome_bind, outcome_skipSpace, ok_bind, outcome_bind, outcome_here, ok_bind] at h
    dsimp only at h
    by_cases hpeek : c₁.skipSpace.peek = ")"
    · rw [if_pos hpeek] at h
      obtain ⟨hmark, rfl⟩ := (closing_eq_ok_iff (m := ')') (a := []) (by decide)).1 h
      exact ⟨c₁.skipSpace, symbol_eq_ok_iff.1 hopen, hmark, by rw [if_pos hpeek]; exact ⟨rfl, rfl⟩⟩
    · rw [if_neg hpeek] at h
      obtain ⟨w, c', hfirst, h⟩ := bind_outcome_eq_ok_iff.1 h
      obtain ⟨rest, c₂, hmore, h⟩ := bind_outcome_eq_ok_iff.1 h
      obtain ⟨hmark, rfl⟩ := (closing_eq_ok_iff (m := ')') (a := w :: rest) (by decide)).1 h
      refine ⟨c₂, symbol_eq_ok_iff.1 hopen, hmark, ?_⟩
      rw [if_neg hpeek]
      exact ⟨w, c', rest, rfl, hfirst, hmore⟩
  · rintro ⟨c₁, c₂, hopen, hmark, h⟩
    refine ⟨(), c₁, symbol_eq_ok_iff.2 hopen, ?_⟩
    rw [outcome_bind, outcome_skipSpace, ok_bind, outcome_bind, outcome_here, ok_bind]
    dsimp only
    by_cases hpeek : c₁.skipSpace.peek = ")"
    · rw [if_pos hpeek] at h ⊢
      obtain ⟨rfl, rfl⟩ := h
      exact (closing_eq_ok_iff (by decide)).2 ⟨hmark, rfl⟩
    · rw [if_neg hpeek] at h ⊢
      obtain ⟨w, c', rest, rfl, hfirst, hmore⟩ := h
      exact bind_outcome_eq_ok_iff.2 ⟨w, c', hfirst, bind_outcome_eq_ok_iff.2
        ⟨rest, c₂, hmore, (closing_eq_ok_iff (by decide)).2 ⟨hmark, rfl⟩⟩⟩

/-- What is read as arguments is derived as arguments. -/
theorem argumentsAt_of_argumentList {ws : List WrittenArgument}
    (h : (argumentList constants).outcome c = .ok (ws, d)) :
    ArgumentsAt constants c (ws.map (·.literal)) d := by
  obtain ⟨c₁, c₂, hopen, hclose, h⟩ := argumentList_eq_ok_iff.1 h
  have hc₁ : c₁.inSource := hopen.leads.inSource hopen.1
  split at h
  · next hpeek =>
    obtain ⟨rfl, rfl⟩ := h
    refine .none hopen ((Cursor.mark_iff (by decide)).2 ?_)
    rwa [Cursor.mark_iff (by decide), Cursor.skipSpace_skipSpace] at hclose
  · obtain ⟨w, c', rest, rfl, hfirst, hmore⟩ := h
    exact .some hopen (Cursor.blanks_skipSpace hc₁)
      (operandsAt_of_moreElements (writtenArgument_eq_ok_iff.1 hfirst).2 hmore) hclose

/-- Arguments that are derived are read. An operand is told from the closing parenthesis by its
first character. -/
theorem argumentList_of_argumentsAt {ls : List Literal} (h : ArgumentsAt constants c ls d) :
    ∃ ws, (argumentList constants).outcome c = .ok (ws, d) ∧
      ws.map WrittenArgument.literal = ls := by
  cases h with
  | @none c₁ _ hopen hclose =>
    have hmark := (Cursor.mark_iff (by decide)).1 hclose
    refine ⟨[], argumentList_eq_ok_iff.2 ⟨c₁, c₁.skipSpace, hopen, ?_, ?_⟩, rfl⟩
    · rwa [Cursor.mark_iff (by decide), Cursor.skipSpace_skipSpace]
    · rw [if_pos (show c₁.skipSpace.peek = ")" from hmark.1)]
      exact ⟨rfl, rfl⟩
  | @some c₁ c₂ c₃ _ _ hopen hspace hoperands hclose =>
    have hcomma : c₃.skipSpace.peek ≠ "," := by
      rw [((Cursor.mark_iff (by decide)).1 hclose).1]
      decide
    obtain ⟨l, c', ws, hfirst, rfl, hmore⟩ := moreElements_of_operandsAt hoperands hcomma
    -- an operand is told from the closing parenthesis by its first character
    refine ⟨⟨c₂, l⟩ :: ws, argumentList_eq_ok_iff.2 ⟨c₁, c₃, hopen, hclose, ?_⟩, rfl⟩
    rw [hspace.skipSpace_eq hfirst.stops, if_neg hfirst.peek_ne]
    exact ⟨_, c', ws, rfl, writtenArgument_eq_ok_iff.2 ⟨rfl, hfirst⟩, hmore⟩

end Parser

/-! ### Items -/

/-- Written arguments convert where each literal converts to its argument. -/
theorem Arguments.convert_eq_ok_iff {miscount : Diagnostic} {ps : List ParameterType}
    {written : List WrittenArgument} {as : Arguments ps} :
    Arguments.convert miscount ps written = .ok as ↔
      List.Forall₂ (fun l a => a.1.convert l = .ok a.2) (written.map (·.literal)) as.toList := by
  induction ps generalizing written with
  | nil =>
    cases as
    cases written with
    | nil => exact iff_of_true rfl .nil
    | cons w written => exact iff_of_false nofun nofun
  | cons p ps ih =>
    cases as with
    | cons a as =>
      cases written with
      | nil => exact iff_of_false nofun nofun
      | cons w written =>
        rw [Arguments.convert, List.map_cons, Arguments.toList, List.forall₂_cons, ← ih, bind_eq_ok]
        simp only [ParameterType.cast_eq_ok_iff]
        constructor
        · rintro ⟨argument, hargument, h⟩
          obtain ⟨rest, hrest, heq⟩ := bind_eq_ok.1 h
          cases heq
          exact ⟨hargument, hrest⟩
        · rintro ⟨hargument, hrest⟩
          exact ⟨a, hargument, bind_eq_ok.2 ⟨as, hrest, rfl⟩⟩

/-- An item is built exactly if the literals are as many as its parameters and all convert. -/
theorem Item.construct_eq_ok_iff {ν : Type} [ItemName ν] {start : Cursor} {name : ν}
    {written : List WrittenArgument} {i : Item ν} :
    Item.construct start name written = .ok i ↔ name = i.name ∧
      List.Forall₂ (fun l a => a.1.convert l = .ok a.2) (written.map (·.literal))
        i.arguments.toList := by
  rw [construct]
  constructor
  · intro h
    split at h
    · obtain ⟨as, has, heq⟩ := bind_eq_ok.1 h
      cases heq
      exact ⟨rfl, Arguments.convert_eq_ok_iff.1 has⟩
    · cases h
  · rintro ⟨rfl, h⟩
    have hlength : written.length = (ItemName.parameters i.name).length := by
      have hall := h.length_eq
      have hparameters := congrArg List.length i.arguments.map_fst_toList
      rw [List.length_map] at hall hparameters
      exact hall.trans hparameters
    rw [if_pos hlength]
    exact bind_eq_ok.2 ⟨i.arguments, Arguments.convert_eq_ok_iff.2 h, rfl⟩

namespace Parser

variable {c d : Cursor}

theorem argumentList_opens : (argumentList constants).Opens fun ch => !isSpace ch :=
  (symbol_opens (m := '(') (by decide)).bind

/-- An item is called exactly where its call is derived. -/
theorem itemCall_eq_ok_iff {ν : Type} [ItemName ν] [Spelled ν] {unknown : Problem} {i : Item ν} :
    (itemCall ν unknown constants).outcome c = .ok (i, d) ↔ CallAt constants c i d := by
  rw [itemCall, outcome_bind, outcome_here, ok_bind, bind_outcome_eq_ok_iff]
  constructor
  · rintro ⟨word, c₁, hname, h⟩
    obtain ⟨-, hat, rfl⟩ := name_eq_ok_iff.1 hname
    split at h
    · cases h
    · next n hn =>
      obtain rfl := Spelled.ofSpelling?_eq_some_iff.1 hn
      obtain ⟨item, _, hcall, h⟩ := bind_outcome_eq_ok_iff.1 h
      cases h
      rw [committed_eq_ok_iff, outcome_bind, outcome_skipSpace, ok_bind,
        argumentList_opens.bind.outcome_skipSpace_eq_ok_iff] at hcall
      obtain ⟨c₂, hspace, hcall⟩ := hcall
      obtain ⟨ws, c₃, harguments, hcall⟩ := bind_outcome_eq_ok_iff.1 hcall
      obtain ⟨_, _, hend, hcall⟩ := bind_outcome_eq_ok_iff.1 hcall
      rw [outcome_ofExcept, map_eq_ok] at hcall
      obtain ⟨_, hconstruct, heq⟩ := hcall
      cases heq
      obtain ⟨rfl, hconvert⟩ := Item.construct_eq_ok_iff.1 hconstruct
      exact .call (Cursor.word_iff.2 ⟨hat, rfl⟩) hspace (argumentsAt_of_argumentList harguments)
        (terminator_eq_ok_iff.1 hend) hconvert
  · rintro ⟨hword, hspace, harguments, hend, hconvert⟩
    obtain ⟨hat, rfl⟩ := Cursor.word_iff.1 hword
    obtain ⟨ws, hlist, rfl⟩ := argumentList_of_argumentsAt harguments
    have hname := name_eq_ok_iff.2 ⟨Spelled.isName i.name, hat, rfl⟩
    refine ⟨_, _, hname, ?_⟩
    rw [Spelled.ofSpelling?_spelling i.name]
    refine bind_outcome_eq_ok_iff.2 ⟨i, d, ?_, rfl⟩
    rw [committed_eq_ok_iff, outcome_bind, outcome_skipSpace, ok_bind,
      argumentList_opens.bind.outcome_skipSpace_eq_ok_iff]
    refine ⟨_, hspace, bind_outcome_eq_ok_iff.2 ⟨ws, _, hlist, bind_outcome_eq_ok_iff.2
      ⟨(), d, terminator_eq_ok_iff.2 hend, ?_⟩⟩⟩
    rw [outcome_ofExcept, Item.construct_eq_ok_iff.2 ⟨rfl, hconvert⟩]
    rfl

theorem itemCall_opens {ν : Type} [ItemName ν] {unknown : Problem} :
    (itemCall ν unknown constants).Opens fun ch => !isSpace ch := by
  refine .here_bind fun _ => (name_opens fun ch hch => ?_).bind
  simp [not_isSpace_of_isNameStart ch hch]

end Parser

namespace CallAt

variable {ν : Type} [ItemName ν] {c d : Cursor} {i : Item ν}

/-- A call starts with a name that is known. -/
theorem head (h : CallAt constants c i d) : ItemName.Head ν c := by
  obtain ⟨hword, -, -, -, -⟩ := h
  exact ⟨i.name, (Cursor.word_iff.1 hword).1⟩

theorem stops [Spelled ν] (h : CallAt constants c i d) : c.rest.Stops isSpace := by
  obtain ⟨hword, -, -, -, -⟩ := h
  rw [hword.1.rest_eq]
  exact ((Spelled.isName i.name).1.append _).stops not_isSpace_of_isNameStart

end CallAt

end EventRules
