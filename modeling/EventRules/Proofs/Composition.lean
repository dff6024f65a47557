/-
# How statements are put together

A statement is put together from tokens, operands and state variables by the combinators of parsers
and in no other way. What a statement means depends on its terms only through these parts. So a
property of parsers that holds of the parts and is kept by the combinators holds of every statement.

`Composed` is the principle of induction behind this. It speaks of two parsers at once, which are
put together in the same way but remember places of their own; what they read is compared through a
view that forgets the places. Operands stand only behind space or a mark, and the composition keeps
track of where one of these has just been read.
-/

import EventRules.Proofs.AlignedStatement
import EventRules.Proofs.Commitment

namespace EventRules

/-- A character that a name or a number may go on with. -/
def isWordChar (ch : Char) : Bool :=
  isNameChar ch || ch = '-'

/-- The character is a mark: no space, no part of a word, and no operand starts with it. -/
def IsPunctuation (ch : Char) : Prop :=
  isSpace ch = false ∧ isWordChar ch = false ∧ ch ≠ '"' ∧ ch ≠ '#'

instance (ch : Char) : Decidable (IsPunctuation ch) :=
  inferInstanceAs (Decidable (_ ∧ _ ∧ _ ∧ _))

/-- What a form of a matcher reports where its head is missing. -/
def MatcherForm.missing : MatcherForm → Cursor → Diagnostic
  | event, c => .expected c (.keyword "event")
  | producer, c => .expected c (.keyword "producer")
  | tick, c => .expected c (.keyword "tick")
  | block, c => .expected c (.symbol "\x7b")
  | negation, c => .expected c (.keyword "not")
  | disjunction, c => .expected c (.keyword "or")
  | conjunction, c => .expected c (.keyword "and")

namespace Parser

/-- The parsers that read one piece of text without asking what it stands for. -/
inductive Token : {α : Type} → Parser α → Prop
  | keyword {word : Text} (hword : word.IsName) : Token (Parser.keyword word)
  | keywordChoice {words : List Text} (hwords : ∀ word ∈ words, word.IsName) :
    Token (Parser.keywordChoice words)
  | name : Token Parser.name
  | symbol (mark : Char) : Token (Parser.symbol [mark])
  | skipSpace : Token Parser.skipSpace
  | space : Token Parser.space
  | terminator : Token Parser.terminator
  | clauseTerminator : Token Parser.clauseTerminator

/-- The parsers behind which an operand may stand. Optional space is one of them only behind another
separator, which the flag tells. -/
inductive Separator : Bool → Parser Unit → Prop
  | space {b : Bool} : Separator b Parser.space
  | symbol {b : Bool} {mark : Char} (hmark : IsPunctuation mark) :
    Separator b (Parser.symbol [mark])
  | nextSymbol {b : Bool} {mark : Char} (hmark : IsPunctuation mark) :
    Separator b (Parser.nextSymbol [mark])
  | skipSpace : Separator true Parser.skipSpace

/-- The heads by which an optional part is told: keywords and marks with which no operand starts,
possibly after space. -/
inductive Heading : (Cursor → Prop) → Prop
  | keyword {word : Text} (hword : word.IsName) (hbool : ∀ b, word ≠ Text.ofBool b) :
    Heading (·.atKeyword word)
  | symbol {mark : Char} (hmark : IsPunctuation mark) : Heading (·.peek = [mark])
  | any {ι : Type} {heads : ι → Cursor → Prop} (h : ∀ i, Heading (heads i)) :
    Heading fun c => ∃ i, heads i c
  | next {head : Cursor → Prop} (h : Heading head) : Heading fun c => head c.skipSpace
  | spaced {head : Cursor → Prop} (h : Heading head) :
    Heading fun c => c.rest.takeWhile isSpace ≠ [] ∧ head c.skipSpace

section Heads

variable {α : Type}

/-- The parser stands still: it checks something and reads nothing. -/
def Still (p : Parser α) (x : Except Failure α) : Prop :=
  ∀ c, p.outcome c = x.map (·, c)

/-- A keyword after space is told by the space and the keyword. -/
theorem nextKeyword_commits (word : Text) :
    (nextKeyword word).Commits fun c =>
      c.rest.takeWhile isSpace ≠ [] ∧ c.skipSpace.atKeyword word := by
  intro c
  rw [nextKeyword, declines_bind]
  by_cases hspace : c.rest.takeWhile isSpace = []
  · have hdecline : space.Declines c := ⟨_, by rw [outcome_space, if_pos hspace], rfl⟩
    exact iff_of_true (.inl hdecline) fun h => h.1 hspace
  · have hok : space.outcome c = .ok ((), c.skipSpace) := by rw [outcome_space, if_neg hspace]
    have hnext := keyword_commits word c.skipSpace
    simp only [not_declines_of_ok hok, hok, false_or, Except.ok.injEq, Prod.mk.injEq]
    constructor
    · rintro ⟨_, _, ⟨-, rfl⟩, hdecline⟩ ⟨-, hat⟩
      exact hnext.1 hdecline hat
    · intro hhead
      exact ⟨(), _, ⟨trivial, rfl⟩, hnext.2 fun hat => hhead ⟨hspace, hat⟩⟩

/-- A clause is told by its head after space. -/
theorem blockClause_commits {clause : Parser α} {head : Cursor → Prop}
    (h : clause.Commits head) : (blockClause clause).Commits fun c => head c.skipSpace := by
  intro c
  have hclause := h.bind (f := fun a => do committed clauseTerminator; return a)
    fun _ => (Sure.committed _).bind fun _ => .pure _
  rw [← hclause c.skipSpace, blockClause, declines_bind]
  constructor
  · rintro (⟨d, hd, -⟩ | ⟨_, _, hok, hdecline⟩)
    · rw [outcome_skipSpace] at hd
      cases hd
    · rw [outcome_skipSpace] at hok
      cases hok
      exact hdecline
  · intro hdecline
    exact .inr ⟨(), _, outcome_skipSpace c, hdecline⟩

end Heads

/-- The elements of a list in parentheses, up to the closing one. -/
def elements {α : Type} (element : Parser α) : Parser (List α) := do
  if (← here).peek = ")" then
    return []
  else
    let first ← element
    let rest ← moreElements "," element
    return first :: rest

/-- The elements of a list are missing where the closing parenthesis stands. -/
theorem outcome_elements {α : Type} (element : Parser α) (c : Cursor) :
    (elements element).outcome c =
      if c.peek = ")" then .ok ([], c)
      else (do
        let first ← element
        let rest ← moreElements "," element
        return first :: rest : Parser (List α)).outcome c := by
  rw [elements, outcome_bind, outcome_here, ok_bind]
  split <;> rfl

/-- A list is its elements between parentheses. -/
theorem list_eq {α : Type} (element : Parser α) :
    list {} element = do
      symbol "("
      skipSpace
      let as ← elements element
      nextSymbol ")"
      return as := by
  simp only [list, elements, bind_assoc]
  congr 1
  funext _
  congr 1
  funext _
  congr 1
  funext c
  split <;> simp

/-- Two parsers that are put together in the same way, each from its terms. The flag tells that they
start behind a separator. -/
inductive Composed :
    Bool → {α γ : Type} → (α → γ) → (Terms → Parser α) → (Terms → Parser α) → Prop
  | still {b : Bool} {α γ : Type} {view : α → γ} {p q : Parser α} {x y : Except Failure α}
    (hp : p.Still x) (hq : q.Still y)
    (h : ∀ a, x = .ok a → ∃ a', y = .ok a' ∧ view a' = view a) :
    Composed b view (fun _ => p) (fun _ => q)
  | token {b : Bool} {α : Type} {p : Parser α} (h : Token p) :
    Composed b id (fun _ => p) (fun _ => p)
  | operand : Composed true id Terms.operand Terms.operand
  | slot {b : Bool} :
    Composed b id (fun t => stateVariable t.slots) (fun t => stateVariable t.slots)
  | here {b : Bool} {α γ : Type} {view : α → γ} {f g : Terms → Cursor → Parser α}
    (h : ∀ c d, Composed b view (f · c) (g · d)) :
    Composed b view (fun t => Parser.here >>= f t) (fun t => Parser.here >>= g t)
  | bind {b : Bool} {α β γ δ : Type} {view : α → γ} {view' : β → δ} {p q : Terms → Parser α}
    {f g : Terms → α → Parser β} (h : Composed b view p q)
    (hnext : ∀ a a', view a' = view a → Composed false view' (f · a) (g · a')) :
    Composed b view' (fun t => p t >>= f t) (fun t => q t >>= g t)
  | after {b : Bool} {α γ : Type} {view : α → γ} {p : Parser Unit} {f g : Terms → Parser α}
    (hp : Separator b p) (h : Composed true view f g) :
    Composed b view (fun t => p >>= fun _ => f t) (fun t => p >>= fun _ => g t)
  | committed {b : Bool} {α γ : Type} {view : α → γ} {p q : Terms → Parser α}
    (h : Composed b view p q) :
    Composed b view (fun t => Parser.committed (p t)) (fun t => Parser.committed (q t))
  | optional {b : Bool} {α γ : Type} {view : α → γ} {p q : Terms → Parser α}
    {head : Cursor → Prop} (hhead : Heading head) (hp : ∀ t, (p t).Commits head)
    (hq : ∀ t, (q t).Commits head) (h : Composed b view p q) :
    Composed b (Option.map view) (fun t => Parser.optional (p t)) (fun t => Parser.optional (q t))
  | many0 {b : Bool} {α γ : Type} {view : α → γ} {p q : Terms → Parser α} {head : Cursor → Prop}
    (hhead : Heading head) (hp : ∀ t, (p t).Commits head) (hq : ∀ t, (q t).Commits head)
    (h : Composed false view p q) :
    Composed b (List.map view) (fun t => Parser.many0 (p t)) (fun t => Parser.many0 (q t))
  | elements {α γ : Type} {view : α → γ} {p q : Terms → Parser α} (h : Composed true view p q) :
    Composed true (List.map view) (fun t => Parser.elements (p t)) (fun t => Parser.elements (q t))
  | matchers {b : Bool} {p q : MatcherForm → Terms → Parser Matcher}
    (hp : ∀ form t, (p form t).Commits form.Head) (hq : ∀ form t, (q form t).Commits form.Head)
    (hmissing : ∀ form t c, ¬ form.Head c → (p form t).outcome c = .error (form.missing c))
    (h : ∀ form, Composed false id (p form) (q form)) :
    Composed b id (fun t => alt (t.matchers.map (p · t))) (fun t => alt (t.matchers.map (q · t)))

namespace Composed

variable {b : Bool} {α β γ δ : Type} {view : α → γ} {view' : β → δ} {p q : Terms → Parser α}

protected theorem pure {a a' : α} (h : view a' = view a) :
    Composed b view (fun _ => pure a) (fun _ => pure a') :=
  .still (x := .ok a) (y := .ok a') (fun _ => rfl) (fun _ => rfl) fun _ ha => by
    cases ha
    exact ⟨a', rfl, h⟩

theorem note (m n : Note) :
    Composed b (fun _ => ()) (fun _ => Parser.note m) (fun _ => Parser.note n) :=
  .still (x := .ok ()) (y := .ok ()) (fun _ => rfl) (fun _ => rfl) fun _ _ => ⟨(), rfl, rfl⟩

theorem fail (d e : Diagnostic) :
    Composed b view (fun _ => Parser.fail d) (fun _ => Parser.fail e) :=
  .still (x := .error d) (y := .error e) (fun _ => rfl) (fun _ => rfl) nofun

/-- Checks are composed alike if what passes the one passes the other. -/
theorem ofExcept {x y : Except Failure α}
    (h : ∀ a, x = .ok a → ∃ a', y = .ok a' ∧ view a' = view a) :
    Composed b view (fun _ => Parser.ofExcept x) (fun _ => Parser.ofExcept y) :=
  .still (fun _ => rfl) (fun _ => rfl) h

theorem same (x : Except Failure α) :
    Composed b id (fun _ => Parser.ofExcept x) (fun _ => Parser.ofExcept x) :=
  .ofExcept fun a h => ⟨a, h, rfl⟩

/-- What is read first is the same on both sides. -/
theorem seq {f g : Terms → α → Parser β} (h : Composed b id p q)
    (hnext : ∀ a, Composed false view' (f · a) (g · a)) :
    Composed b view' (fun t => p t >>= f t) (fun t => q t >>= g t) :=
  .bind h fun a a' (hview : a' = a) => hview ▸ hnext a

theorem map {f : α → β} (h : Composed b view p q)
    (hf : ∀ a a', view a' = view a → view' (f a') = view' (f a)) :
    Composed b view' (fun t => f <$> p t) (fun t => f <$> q t) := by
  simp only [← bind_pure_comp]
  exact .bind h fun a a' hview => .pure (hf a a' hview)

/-- A mark after space. -/
theorem nextSymbol (mark : Char) :
    Composed b id (fun _ => Parser.nextSymbol [mark]) (fun _ => Parser.nextSymbol [mark]) :=
  .seq (.token .skipSpace) fun _ => .token (.symbol mark)

/-- A keyword after space. -/
theorem nextKeyword {word : Text} (hword : word.IsName) :
    Composed b id (fun _ => Parser.nextKeyword word) (fun _ => Parser.nextKeyword word) :=
  .seq (.token .space) fun _ => .token (.keyword hword)

/-- Lists are composed alike if their elements are, which stand behind separators. -/
theorem list (h : Composed true view p q) :
    Composed b (List.map view) (fun t => Parser.list {} (p t)) (fun t => Parser.list {} (q t)) := by
  have hopening : IsPunctuation '(' := by decide
  simp only [list_eq]
  exact .after (.symbol hopening) <| .after .skipSpace <| .bind (.elements h)
    fun as bs hview => .seq (.nextSymbol ')') fun _ => .pure hview

end Composed

variable {b : Bool}

/-! ### Items -/

theorem operand_composed (p : ParameterType) :
    Composed true id (fun t => operand t.operand p) (fun t => operand t.operand p) :=
  .here fun _ _ => .seq .operand fun _ =>
    .ofExcept fun a ha =>
      ⟨a, ParameterType.cast_eq_ok_iff.2 (ParameterType.cast_eq_ok_iff.1 ha), rfl⟩

/-- Arguments are composed from operands, and only their literals count. -/
theorem argumentList_composed :
    Composed b (List.map WrittenArgument.literal) (fun t => argumentList t.operand)
      (fun t => argumentList t.operand) :=
  .list (.here fun _ _ => .seq .operand fun _ => .pure rfl)

/-- A call is composed from its name, its arguments and the checks on them. -/
theorem itemCall_composed (ν : Type) [ItemName ν] (unknown : Problem) :
    Composed b id (fun t => itemCall ν unknown t.operand)
      (fun t => itemCall ν unknown t.operand) := by
  refine .here fun start start' => .seq (.token .name) fun spelling => ?_
  cases ItemName.ofSpelling? ν spelling with
  | none => exact .fail _ _
  | some n =>
    refine .seq (.committed ?_) fun i => .bind (.note _ _) fun _ _ _ => .pure rfl
    exact .seq (.token .skipSpace) fun _ => .bind argumentList_composed fun as bs hliterals =>
      .seq (.token .terminator) fun _ =>
        .ofExcept fun i hi => ⟨i, Item.construct_congr hliterals hi, rfl⟩

/-- An extractor may be missing before a filter. -/
theorem optionalExtractor_composed :
    Composed b id (fun t => optionalExtractor t.operand)
      (fun t => optionalExtractor t.operand) := by
  have hnames : ∀ n : ExtractorName, ∀ b, ItemName.spelling n ≠ Text.ofBool b := by
    intro n b
    cases n <;> cases b <;> decide
  have hhead : Heading (ItemName.Head ExtractorName) :=
    .any fun n => .keyword (Spelled.isName n) (hnames n)
  refine .bind (.optional hhead (fun _ => itemCall_commits _ _) (fun _ => itemCall_commits _ _)
    (itemCall_composed ExtractorName _)) fun a a' h => .pure ?_
  rw [Option.map_id, id, id] at h
  rw [h]

/-! ### Matchers -/

theorem numberForm_composed {word : Text} (hword : word.IsName) (matcher : Nat → Matcher) :
    Composed b id (fun t => numberForm t.operand word matcher)
      (fun t => numberForm t.operand word matcher) :=
  .seq (.token (.keyword hword)) fun _ => .committed <| .after .space <|
    .seq (operand_composed .u16) fun _ => .pure rfl

theorem blockForm_composed :
    Composed b id (fun t => blockForm t.operand) (fun t => blockForm t.operand) :=
  .seq (.token (.symbol '{')) fun _ => .committed <| .seq (.token .skipSpace) fun _ =>
    .seq optionalExtractor_composed fun _ => .seq (.token .skipSpace) fun _ =>
      .seq (itemCall_composed _ _) fun _ => .seq (.nextSymbol '}') fun _ => .pure rfl

section Nested

variable {inner : Terms → Parser Matcher} (hinner : Composed false id inner inner)

include hinner

/-- A negation is composed from its operand, in one level less. -/
theorem unaryForm_composed {word : Text} (hword : word.IsName) (build : Matcher → Matcher) :
    Composed b id (fun t => unaryForm (inner t) word build)
      (fun t => unaryForm (inner t) word build) :=
  .seq (.token (.keyword hword)) fun _ => .committed <| .seq (.nextSymbol '{') fun _ =>
    .seq (.token .skipSpace) fun _ => .seq hinner fun _ => .seq (.nextSymbol '}') fun _ => .pure rfl

/-- A conjunction or disjunction is composed from its operands, in one level less. -/
theorem binaryForm_composed {word : Text} (hword : word.IsName)
    (build : Matcher → Matcher → Matcher) :
    Composed b id (fun t => binaryForm (inner t) word build)
      (fun t => binaryForm (inner t) word build) :=
  .seq (.token (.keyword hword)) fun _ => .committed <| .seq (.nextSymbol '{') fun _ =>
    .seq (.token .skipSpace) fun _ => .seq hinner fun _ => .seq (.nextSymbol ',') fun _ =>
      .seq (.token .skipSpace) fun _ => .seq hinner fun _ =>
        .seq (.nextSymbol '}') fun _ => .pure rfl

theorem matcherForm_composed (form : MatcherForm) :
    Composed b id (fun t => matcherForm t.operand (inner t) form)
      (fun t => matcherForm t.operand (inner t) form) := by
  cases form with
  | event => exact numberForm_composed (by decide) _
  | producer => exact numberForm_composed (by decide) _
  | tick => exact .seq (.token (.keyword (by decide))) fun _ => .pure rfl
  | block => exact blockForm_composed
  | negation => exact unaryForm_composed hinner (by decide) _
  | disjunction => exact binaryForm_composed hinner (by decide) _
  | conjunction => exact binaryForm_composed hinner (by decide) _

end Nested

/-- What starts with a keyword that is missing reports the keyword. -/
theorem outcome_keyword_bind {α : Type} {word : Text} {f : Unit → Parser α} {c : Cursor}
    (h : ¬ c.atKeyword word) :
    (keyword word >>= f).outcome c = .error (Diagnostic.expected c (.keyword word)) := by
  rw [outcome_bind, outcome_keyword, if_neg h]
  rfl

/-- A form whose head is missing reports its head. -/
theorem matcherForm_missing (read : Parser Literal) (inner : Parser Matcher) {form : MatcherForm}
    {c : Cursor} (h : ¬ form.Head c) :
    (matcherForm read inner form).outcome c = .error (form.missing c) := by
  cases form with
  | block =>
    have hpeek : c.peek ≠ "\x7b" := h
    rw [matcherForm, blockForm, outcome_bind, outcome_symbol, if_neg hpeek]
    rfl
  | event | producer | tick | negation | disjunction | conjunction =>
    exact outcome_keyword_bind h

/-- Matchers are composed alike in any number of levels. -/
theorem matcherIn_composed (levels : Nat) :
    Composed b id (fun t => matcherIn t.operand t.matchers levels)
      (fun t => matcherIn t.operand t.matchers levels) := by
  induction levels generalizing b with
  | zero => exact .here fun _ _ => .fail _ _
  | succ levels ih =>
    exact .matchers (p := fun form t => matcherForm t.operand _ form)
      (q := fun form t => matcherForm t.operand _ form)
      (fun form t => matcherForm_commits _ _ form) (fun form t => matcherForm_commits _ _ form)
      (fun form t c h => matcherForm_missing _ _ h) (matcherForm_composed ih)

theorem matcher_composed [NestingLimit] : Composed b id matcher matcher :=
  matcherIn_composed NestingLimit.levels

theorem matchClause_composed [NestingLimit] : Composed b id matchClause matchClause :=
  .seq (.token (.keyword (by decide))) fun _ => .committed <|
    .seq (.token .skipSpace) fun _ => matcher_composed

theorem condition_composed [NestingLimit] : Composed b id condition condition := by
  have hhead : Heading fun c =>
      c.rest.takeWhile isSpace ≠ [] ∧ c.skipSpace.atKeyword "if" :=
    .spaced (.keyword (by decide) (by decide))
  refine .bind (.optional hhead (fun _ => nextKeyword_commits _) (fun _ => nextKeyword_commits _)
    (.nextKeyword (by decide))) fun a a' h => ?_
  obtain rfl : a' = a := by simpa using h
  cases a' with
  | none => exact .pure rfl
  | some _ =>
    exact .committed <| .seq (.token .space) fun _ => .seq matchClause_composed fun _ => .pure rfl

/-! ### Declarations -/

/-- Of a binding, the name and the literal count, and not their places. -/
theorem binding_composed {word : Text} (hword : word.IsName) :
    Composed b (fun b : Binding => (b.name, b.literal)) (fun t => binding t.operand word)
      (fun t => binding t.operand word) :=
  .seq (.token (.keyword hword)) fun _ => .committed <| .seq (.token .space) fun _ =>
    .here fun _ _ => .seq (.token .name) fun _ => .after (.nextSymbol (by decide)) <|
      .after .skipSpace <| .here fun _ _ => .seq .operand fun _ =>
        .seq (.token .terminator) fun _ => .pure rfl

theorem constStatement_composed :
    Composed b Declaration.unlocated (fun t => constStatement t.operand)
      (fun t => constStatement t.operand) := by
  refine .bind (binding_composed (by decide)) fun d d' h =>
    .bind (.note _ _) fun _ _ _ => .pure ?_
  obtain ⟨hname, hliteral⟩ := Prod.mk.inj h
  rw [Declaration.unlocated, Declaration.unlocated, hname, hliteral]

theorem letStatement_composed :
    Composed b Declaration.unlocated (fun t => letStatement t.operand)
      (fun t => letStatement t.operand) := by
  refine .bind (binding_composed (by decide)) fun d d' h => ?_
  obtain ⟨hname, hliteral⟩ := Prod.mk.inj h
  refine .seq (.committed (.ofExcept fun v hv => ⟨v, ?_, rfl⟩)) fun v =>
    .bind (.note _ _) fun _ _ _ => .pure ?_
  · rw [hliteral]
    exact ParameterType.cast_eq_ok_iff.2 (ParameterType.cast_eq_ok_iff.1 hv)
  · rw [Declaration.unlocated, Declaration.unlocated, hname]

theorem gatewayList_composed :
    Composed b id (fun t => gatewayList t.operand) (fun t => gatewayList t.operand) :=
  .seq (.token (.keyword (by decide))) fun _ => .committed <| .seq (.token .skipSpace) fun _ =>
    .bind argumentList_composed fun as bs h =>
      .seq (.ofExcept fun addresses haddresses =>
          ⟨addresses, ParameterType.mapM_cast_congr h haddresses, rfl⟩) fun _ =>
        .seq (.token .space) fun _ => .pure rfl

theorem shape_composed (familyWord : Text) :
    Composed b id (fun t => shape t.operand familyWord) (fun t => shape t.operand familyWord) := by
  refine .seq (.same _) fun family => ?_
  have hwords : ∀ word ∈ family.shapes.map ItemName.spelling, word.IsName :=
    List.forall_mem_map.2 fun s _ => s.isName_spelling
  exact .here fun _ _ => .seq (.token (.keywordChoice hwords)) fun _ => .seq (.same _) fun _ =>
    .seq (.token .skipSpace) fun _ => .bind argumentList_composed fun as bs h =>
      .seq (.token .terminator) fun _ =>
        .ofExcept fun s hs => ⟨s, Item.construct_congr h hs, rfl⟩

/-- A peripheral is composed from its index, its family, its shape and the channels. -/
theorem peripheralBody_composed (gateways : List Nat) :
    Composed b Declaration.unlocated (fun t => peripheralBody t.operand gateways)
      (fun t => peripheralBody t.operand gateways) := by
  have hwords : ∀ word ∈ Family.all.map Family.keyword, word.IsName :=
    List.forall_mem_map.2 fun f _ => f.isName_keyword
  exact .after .space <| .here fun _ _ => .seq (operand_composed .u32) fun _ =>
    .here fun _ _ => .seq (.token .space) fun _ =>
      .seq (.token (.keywordChoice hwords)) fun _ => .seq (.token .space) fun _ =>
        .seq (shape_composed _) fun _ => .bind (.note _ _) fun _ _ _ => .pure rfl

theorem peripheralStatement_composed :
    Composed b Declaration.unlocated (fun t => peripheralStatement t.operand)
      (fun t => peripheralStatement t.operand) := by
  refine .bind (.optional (.keyword (by decide) (by decide)) (fun _ => gatewayList_commits _)
    (fun _ => gatewayList_commits _) gatewayList_composed) fun a a' h => ?_
  obtain rfl : a' = a := by simpa using h
  cases a' with
  | none =>
    exact .seq (.token (.keyword (by decide))) fun _ => .committed (peripheralBody_composed _)
  | some gateways =>
    exact .committed <| .seq (.token (.keyword (by decide))) fun _ =>
      peripheralBody_composed gateways

/-! ### Rules -/

/-- A clause in a block is composed from the clause and what ends it. -/
theorem blockClause_composed {α : Type} {clause : Terms → Parser α}
    (h : Composed false id clause clause) :
    Composed b id (fun t => blockClause (clause t)) (fun t => blockClause (clause t)) :=
  .seq (.token .skipSpace) fun _ => .seq h fun _ =>
    .seq (.committed (.token .clauseTerminator)) fun _ => .pure rfl

/-- The clauses of a block, which are told by their keyword. -/
theorem clauses_composed {α : Type} {clause : Terms → Parser α} {word : Text}
    (hword : word.IsName) (hbool : ∀ b, word ≠ Text.ofBool b)
    (hhead : ∀ t, (clause t).Commits (·.atKeyword word)) (h : Composed false id clause clause) :
    Composed b id (fun t => many0 (blockClause (clause t)))
      (fun t => many0 (blockClause (clause t))) := by
  have hmany := Composed.many0 (b := b) (.next (.keyword hword hbool))
    (fun t => blockClause_commits (hhead t)) (fun t => blockClause_commits (hhead t))
    (blockClause_composed h)
  rwa [List.map_id_fun] at hmany

variable [NestingLimit]

theorem sendStatement_composed : Composed b id sendStatement sendStatement := by
  refine .seq (.token (.keyword (by decide))) fun _ => .seq (.committed ?_) fun r =>
    .bind (.note _ _) fun _ _ _ => .seq (.same _) fun _ => .pure rfl
  exact .after .space <| .seq (operand_composed .u16) fun _ =>
    .seq (.nextKeyword (by decide)) fun _ => .after .space <|
      .seq (operand_composed .u16) fun _ => .seq (.nextKeyword (by decide)) fun _ =>
        .after .space <| .seq (operand_composed .u16) fun _ => .seq condition_composed fun _ =>
          .seq (.token .terminator) fun _ => .pure rfl

theorem setStatement_composed : Composed b id setStatement setStatement := by
  refine .seq (.token (.keyword (by decide))) fun _ => .seq (.committed ?_) fun r =>
    .bind (.note _ _) fun _ _ _ => .seq (.same _) fun _ => .pure rfl
  exact .seq (.token .space) fun _ => .seq .slot fun _ => .seq (.nextKeyword (by decide)) fun _ =>
    .after .space <| .seq (operand_composed .value) fun _ =>
      .seq (.nextKeyword (by decide)) fun _ => .after .space <|
        .seq (operand_composed .u16) fun _ => .seq (.nextKeyword (by decide)) fun _ =>
          .after .space <| .seq (operand_composed .u16) fun _ => .seq condition_composed fun _ =>
            .seq (.token .terminator) fun _ => .pure rfl

theorem fireClause_composed : Composed b id fireClause fireClause :=
  .seq (.token (.keyword (by decide))) fun _ => .committed <| .seq (.nextSymbol '{') fun _ =>
    .seq (.token .skipSpace) fun _ => .seq optionalExtractor_composed fun _ =>
      .seq (.token .skipSpace) fun _ => .seq (itemCall_composed _ _) fun _ =>
        .seq (.nextSymbol '}') fun _ => .seq condition_composed fun _ => .pure rfl

/-- A block is composed from its clauses, of which the first matcher has to be there. -/
theorem doStatement_composed : Composed b id doStatement doStatement := by
  refine .seq (.token (.keyword (by decide))) fun _ => .seq (.committed ?_) fun r =>
    .bind (.note _ _) fun _ _ _ => .seq (.same _) fun _ => .pure rfl
  refine .seq (.nextSymbol '{') fun _ =>
    .seq (.seq (blockClause_composed matchClause_composed) fun _ =>
      .seq (clauses_composed (by decide) (by decide) matchClause_commits matchClause_composed)
        fun _ => .pure rfl) fun ms => ?_
  exact .seq (clauses_composed (by decide) (by decide) fireClause_commits fireClause_composed)
    fun _ => .seq (.nextSymbol '}') fun _ => .seq (.token .clauseTerminator) fun _ => .pure rfl

/-! ### Statements -/

/-- Every statement is put together from tokens, operands and state variables. -/
theorem statementForm_composed (form : StatementForm) :
    Composed b Statement.unlocated (fun t => statementForm t form)
      (fun t => statementForm t form) := by
  have hdeclaration : ∀ d d' : Declaration, d'.unlocated = d.unlocated →
      (Statement.declaration d').unlocated = (Statement.declaration d).unlocated :=
    fun _ _ h => congrArg Statement.declaration h
  have hrule : ∀ p p' : EventProcessor, id p' = id p →
      (Statement.rule p').unlocated = (Statement.rule p).unlocated :=
    fun _ _ h => congrArg Statement.rule h
  cases form with
  | peripheral => exact peripheralStatement_composed.map hdeclaration
  | letState => exact letStatement_composed.map hdeclaration
  | const => exact constStatement_composed.map hdeclaration
  | send => exact sendStatement_composed.map hrule
  | doBlock => exact doStatement_composed.map hrule
  | setState => exact setStatement_composed.map hrule

end Parser

end EventRules
