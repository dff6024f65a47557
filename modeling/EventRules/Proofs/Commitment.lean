/-
# Commitment

A parser that commits has a head: a keyword, a brace or a known name. Where the head is missing, the
parser fails recoverably, so that something else may be tried. Where the head stands, every failure
behind it is fatal, however deep it occurs, and the combinators around the parser hand it on as it
is.

Since the heads of the forms of a matcher exclude each other, the head alone decides which of the
forms a choice takes.
-/

import EventRules.Proofs.Alignment
import EventRules.Proofs.Written
import Mathlib.Logic.Relation

namespace EventRules

/-! ### Heads -/

namespace Parser

variable {α β : Type} {p : Parser α} {head : Cursor → Prop} {c : Cursor} {e : Failure}

/-- The parser fails at the cursor, and another alternative may still be tried. -/
def Declines (p : Parser α) (c : Cursor) : Prop :=
  ∃ d : Diagnostic, p.outcome c = .error d ∧ d.isFatal = false

/-- The parser declines exactly where its head is missing. -/
def Commits (p : Parser α) (head : Cursor → Prop) : Prop :=
  ∀ c, p.Declines c ↔ ¬ head c

theorem Sure.not_declines (h : p.Sure) (c : Cursor) : ¬ p.Declines c := by
  rintro ⟨d, hd, hfatal⟩
  have hsure := h hd
  rw [Failure.isFatal_diagnostic, hfatal] at hsure
  cases hsure

theorem declines_of_isFatal (he : p.outcome c = .error e) (hfatal : ¬ e.isFatal) :
    p.Declines c := by
  obtain ⟨d, rfl, hrecoverable⟩ := Failure.exists_diagnostic (Bool.eq_false_iff.2 hfatal)
  exact ⟨d, he, hrecoverable⟩

/-- A parser that does not decline fails fatally only. -/
theorem isFatal_of_not_declines (h : ¬ p.Declines c) (he : p.outcome c = .error e) :
    e.isFatal := by
  by_contra hfatal
  exact h (declines_of_isFatal he hfatal)

/-- A sequence declines where its first part does, or where a later part does after it. -/
theorem declines_bind {f : α → Parser β} :
    (p >>= f).Declines c ↔
      p.Declines c ∨ ∃ a c', p.outcome c = .ok (a, c') ∧ (f a).Declines c' := by
  constructor
  · rintro ⟨d, hd, hfatal⟩
    rw [outcome_bind] at hd
    rcases bind_eq_error.1 hd with hd | ⟨⟨a, c'⟩, hok, hd⟩
    · exact .inl ⟨d, hd, hfatal⟩
    · exact .inr ⟨a, c', hok, d, hd, hfatal⟩
  · rintro (⟨d, hd, hfatal⟩ | ⟨a, c', hok, d, hd, hfatal⟩)
    · exact ⟨d, by rw [outcome_bind, hd]; rfl, hfatal⟩
    · exact ⟨d, by rw [outcome_bind, hok]; exact hd, hfatal⟩

/-- A parser that fails declines exactly if the failure is not fatal. -/
theorem declines_of_error (he : p.outcome c = .error e) :
    p.Declines c ↔ e.isFatal = false := by
  constructor
  · rintro ⟨d, hd, hfatal⟩
    cases he.symm.trans hd
    exact hfatal
  · exact fun hfatal => declines_of_isFatal he (Bool.eq_false_iff.1 hfatal)

theorem not_declines_of_ok {r : α × Cursor} (hr : p.outcome c = .ok r) : ¬ p.Declines c := by
  simp [Declines, hr]

namespace Commits

/-- Behind its head, a parser fails fatally only. -/
theorem isFatal (h : p.Commits head) (hc : head c) (he : p.outcome c = .error e) : e.isFatal :=
  isFatal_of_not_declines (fun hdecline => (h c).1 hdecline hc) he

/-- What is read starts with its head. -/
theorem head_of_ok (h : p.Commits head) {r : α × Cursor} (hr : p.outcome c = .ok r) : head c := by
  by_contra hmissing
  exact not_declines_of_ok hr ((h c).2 hmissing)

/-- What follows a head has to be sure. -/
theorem bind {f : α → Parser β} (hp : p.Commits head) (hf : ∀ a, (f a).Sure) :
    (p >>= f).Commits head := by
  intro c
  rw [declines_bind, ← hp c]
  constructor
  · rintro (hp | ⟨a, c', -, hdecline⟩)
    · exact hp
    · exact absurd hdecline ((hf a).not_declines c')
  · exact .inl

theorem map {f : α → β} (hp : p.Commits head) : (f <$> p).Commits head := by
  rw [← bind_pure_comp]
  exact hp.bind fun _ => .pure _

/-- After an option, the head is that of the option or, where the option is left out, the head of
what follows. -/
theorem optional_bind {f : Option α → Parser β} {head' : Cursor → Prop} (hp : p.Commits head)
    (hsome : ∀ a, (f (some a)).Sure) (hnone : (f none).Commits head') :
    (optional p >>= f).Commits fun c => head c ∨ head' c := by
  intro c
  rw [declines_bind, not_or, ← hp c, ← hnone c]
  simp only [Declines, outcome_optional]
  cases hfirst : p.outcome c with
  | ok r =>
    have hsure := (hsome r.1).not_declines r.2
    simp only [Declines] at hsure
    simpa using hsure
  | error e => rcases e with d | f <;> [cases hfatal : d.isFatal <;> simp [hfatal]; simp]

end Commits

theorem keyword_commits (word : Text) : (keyword word).Commits (·.atKeyword word) := by
  intro c
  by_cases h : c.atKeyword word
  · simp [Declines, outcome_keyword, h]
  · simp only [Declines, outcome_keyword, h]
    exact iff_of_true ⟨_, rfl, rfl⟩ (by simp)

theorem symbol_commits (mark : Text) : (symbol mark).Commits (·.peek = mark) := by
  intro c
  by_cases h : c.peek = mark
  · simp [Declines, outcome_symbol, h]
  · simp only [Declines, outcome_symbol, if_neg h]
    exact iff_of_true ⟨_, rfl, rfl⟩ h

/-! ### Combinators around a failure -/

/-- A choice passes over the alternatives that decline, up to the first one that does not. -/
theorem outcome_choice_of_declines {before after : List (Parser α)} {failures : List Diagnostic}
    (hbefore : ∀ q ∈ before, q.Declines c) (hp : ¬ p.Declines c) :
    (choice failures (before ++ p :: after)).outcome c = p.outcome c := by
  -- the failures that are gathered on the way show only if all alternatives decline
  induction before generalizing failures with
  | nil =>
    rw [List.nil_append, outcome_choice_cons]
    rcases hout : p.outcome c with (d | f) | r
    · exact if_pos (isFatal_of_not_declines hp hout)
    · rfl
    · rfl
  | cons q before ih =>
    obtain ⟨d, hd, hfatal⟩ := hbefore q (List.mem_cons_self ..)
    rw [List.cons_append, outcome_choice_cons, hd]
    simpa [hfatal] using ih fun q' hq' => hbefore q' (List.mem_cons_of_mem _ hq')

/-- What a choice reads, one alternative reads after all earlier ones have declined. -/
theorem exists_taken_of_choice {ι : Type} {parser : ι → Parser α} {forms : List ι}
    {failures : List Diagnostic} {r : α × Cursor}
    (h : (choice failures (forms.map parser)).outcome c = .ok r) :
    ∃ before form after, forms = before ++ form :: after ∧
      (∀ other ∈ before, (parser other).Declines c) ∧ (parser form).outcome c = .ok r := by
  induction forms generalizing failures with
  | nil => cases h
  | cons first forms ih =>
    rw [List.map_cons, outcome_choice_cons] at h
    split at h
    · next hok =>
      cases h
      exact ⟨[], first, forms, rfl, List.forall_mem_nil _, hok⟩
    · cases h
    · next d hd =>
      split at h
      · cases h
      · next hfatal =>
        obtain ⟨before, form, after, rfl, hbefore, hok⟩ := ih h
        have hfirst : (parser first).Declines c := ⟨d, hd, Bool.eq_false_iff.2 hfatal⟩
        exact ⟨first :: before, form, after, rfl, List.forall_mem_cons.2 ⟨hfirst, hbefore⟩, hok⟩

/-- Of forms of which only one has its head here, a choice takes that one. -/
theorem outcome_alt_map {ι : Type} {parser : ι → Parser α} {forms : List ι} {form : ι}
    {heads : ι → Cursor → Prop} (hmem : form ∈ forms)
    (hparser : ∀ form, (parser form).Commits (heads form)) (hform : heads form c)
    (hunique : ∀ other, heads other c → other = form) :
    (alt (forms.map parser)).outcome c = (parser form).outcome c := by
  obtain ⟨before, after, rfl, hnew⟩ := List.eq_append_cons_of_mem hmem
  rw [List.map_append, List.map_cons]
  refine outcome_choice_of_declines (List.forall_mem_map.2 fun other hother => ?_) ?_
  · exact (hparser other c).2 fun hhead => hnew (hunique other hhead ▸ hother)
  · exact fun hdecline => (hparser form c).1 hdecline hform

/-- An option that declines is left out. -/
theorem outcome_optional_of_declines (h : p.Declines c) :
    (optional p).outcome c = .ok (none, c) := by
  obtain ⟨d, hd, hfatal⟩ := h
  simp [outcome_optional, hd, hfatal]

/-- An option is read where its head stands, and left out where it is missing. -/
theorem Commits.optional_eq_ok_iff (h : p.Commits head) {o : Option α} {c' : Cursor} :
    (optional p).outcome c = .ok (o, c') ↔
      (∃ a, o = some a ∧ p.outcome c = .ok (a, c')) ∨ o = none ∧ c' = c ∧ ¬ head c := by
  constructor
  · intro hok
    rw [outcome_optional] at hok
    split at hok
    · next r hr =>
      cases hok
      exact .inl ⟨r.1, rfl, hr⟩
    · next e he =>
      split at hok
      · cases hok
      · next hfatal =>
        cases hok
        exact .inr ⟨rfl, rfl, (h c).1 (declines_of_isFatal he hfatal)⟩
  · rintro (⟨a, rfl, ha⟩ | ⟨rfl, rfl, hhead⟩)
    · rw [outcome_optional, ha]
    · exact outcome_optional_of_declines ((h c').2 hhead)

/-- A repetition ends where it declines. -/
theorem outcome_many0_of_declines (h : p.Declines c) : (many0 p).outcome c = .ok ([], c) := by
  obtain ⟨d, hd, hfatal⟩ := h
  rw [outcome_many0]
  simp [hd, hfatal]

/-- The parser reads once more and gets closer to the end of the source. -/
def Repeats (p : Parser α) (c c' : Cursor) : Prop :=
  ∃ a, p.outcome c = .ok (a, c') ∧ c'.remaining < c.remaining

/-- A repetition fails where the parser fails fatally after some repetitions. -/
theorem outcome_many0_of_repeats {start : Cursor} (h : Relation.ReflTransGen p.Repeats start c)
    (he : p.outcome c = .error e) (hfatal : e.isFatal) :
    (many0 p).outcome start = .error e := by
  induction h using Relation.ReflTransGen.head_induction_on with
  | refl =>
    rw [outcome_many0, he]
    exact if_pos hfatal
  | head hstep _ ih =>
    obtain ⟨a, hok, hlt⟩ := hstep
    rw [outcome_many0, hok]
    dsimp only
    rw [if_pos hlt, ih]
    rfl

/-- The combinators around a parser hand on its failure at a cursor: a choice that comes to it tries
nothing else, an option is not left out, and neither a repetition nor a repetition of clauses that
comes to the cursor ends before it. -/
structure Reraised (p : Parser α) (c : Cursor) (e : Failure) : Prop where
  alt (before after : List (Parser α)) (hbefore : ∀ q ∈ before, q.Declines c) :
    (Parser.alt (before ++ p :: after)).outcome c = .error e
  optional : (Parser.optional p).outcome c = .error e
  many0 (start : Cursor) (hstart : Relation.ReflTransGen p.Repeats start c) :
    (Parser.many0 p).outcome start = .error e
  clauses (start last : Cursor)
    (hstart : Relation.ReflTransGen (blockClause p).Repeats start last)
    (hlast : last.skipSpace = c) :
    (Parser.many0 (blockClause p)).outcome start = .error e

/-- A fatal failure is handed on. -/
theorem reraised_of_isFatal (he : p.outcome c = .error e) (hfatal : e.isFatal) :
    p.Reraised c e where
  alt before after hbefore := by
    have hp : ¬ p.Declines c := by simp [declines_of_error he, hfatal]
    rw [Parser.alt, outcome_choice_of_declines hbefore hp, he]
  optional := by
    rw [outcome_optional, he]
    exact if_pos hfatal
  many0 start hstart := outcome_many0_of_repeats hstart he hfatal
  clauses start last hstart hlast := by
    refine outcome_many0_of_repeats hstart ?_ hfatal
    rw [blockClause, outcome_bind, outcome_skipSpace, ok_bind, hlast, outcome_bind, he]
    rfl

end Parser

/-! ### Items -/

theorem isNameChar_of_isNameStart {ch : Char} (h : isNameStart ch) : isNameChar ch := by
  simp only [isNameStart, isNameChar, Char.isAlphanum, Bool.or_eq_true] at h ⊢
  rcases h with h | h
  · exact .inl (.inl h)
  · exact .inr h

/-- A run of name characters is a name if it starts like one. -/
theorem Text.isName_takeWhile {t : Text} (h : t.head?.any isNameStart) :
    Text.IsName (t.takeWhile isNameChar) := by
  refine ⟨?_, fun ch hch => List.mem_takeWhile_imp hch⟩
  cases t with
  | nil => cases h
  | cons ch t =>
    rw [List.takeWhile_cons_of_pos (isNameChar_of_isNameStart h)]
    exact starts_cons.2 h

/-- A name of the sort stands at the cursor. -/
def ItemName.Head (ν : Type) [ItemName ν] (c : Cursor) : Prop :=
  ∃ n : ν, c.atKeyword (spelling n)

namespace Parser

/-- A name is read where it stands as a keyword. -/
theorem name_eq_ok_iff {c c' : Cursor} {word : Text} :
    name.outcome c = .ok (word, c') ↔
      word.IsName ∧ c.atKeyword word ∧ c' = c.advance word.length := by
  have hahead : c.ahead? 0 = c.rest.head? := rfl
  rw [outcome_name, hahead]
  constructor
  · intro h
    split at h
    · next hstart =>
      cases h
      have hname := Text.isName_takeWhile hstart
      exact ⟨hname, (Cursor.atKeyword_iff_takeWhile hname).2 rfl, rfl⟩
    · cases h
  · rintro ⟨hname, hat, rfl⟩
    rw [Cursor.atKeyword_iff_takeWhile hname] at hat
    have hstart : c.rest.head?.any isNameStart := by
      have hword := hat ▸ hname.1
      rw [← List.takeWhile_append_dropWhile (p := isNameChar) (l := c.rest)]
      exact hword.append _
    rw [if_pos hstart, hat]

variable {ν : Type} [ItemName ν] [Spelled ν]

/-- A call commits to a name that is known, and passes over any other. -/
theorem itemCall_commits (unknown : Problem) (read : Parser Literal) :
    (itemCall ν unknown read).Commits (ItemName.Head ν) := by
  intro c
  rw [itemCall, declines_bind]
  constructor
  · rintro (hhere | ⟨_, _, hhere, hcall⟩) ⟨n, hn⟩
    · exact not_declines_of_ok (outcome_here c) hhere
    · cases hhere
      have hname : name.outcome c = .ok (ItemName.spelling n, c.advance _) :=
        name_eq_ok_iff.2 ⟨Spelled.isName n, hn, rfl⟩
      rcases declines_bind.1 hcall with hdecline | ⟨word, c', hok, hcall⟩
      · exact not_declines_of_ok hname hdecline
      · cases hname.symm.trans hok
        rw [Spelled.ofSpelling?_spelling n] at hcall
        exact ((Sure.committed _).bind fun _ => (Sure.note _).bind fun _ => .pure _).not_declines
          _ hcall
  · intro hhead
    refine .inr ⟨c, c, rfl, declines_bind.2 ?_⟩
    cases hname : name.outcome c with
    | error e => exact .inl ((declines_of_error hname).2 (isFatal_of_name hname))
    | ok r =>
      obtain ⟨-, hat, -⟩ := name_eq_ok_iff.1 hname
      have hunknown : ItemName.ofSpelling? ν r.1 = none := by
        rw [Option.eq_none_iff_forall_ne_some]
        intro n hn
        rw [Spelled.ofSpelling?_eq_some_iff] at hn
        exact hhead ⟨n, hn ▸ hat⟩
      exact .inr ⟨r.1, r.2, rfl, by rw [hunknown]; exact ⟨_, rfl, rfl⟩⟩

end Parser

/-! ### Matchers -/

/-- The head of a form of a matcher: its keyword, or the opening brace of a block. -/
def MatcherForm.Head : MatcherForm → Cursor → Prop
  | event, c => c.atKeyword "event"
  | producer, c => c.atKeyword "producer"
  | tick, c => c.atKeyword "tick"
  | block, c => c.peek = "\x7b"
  | negation, c => c.atKeyword "not"
  | disjunction, c => c.atKeyword "or"
  | conjunction, c => c.atKeyword "and"

/-- A keyword starts with its first character. -/
theorem Cursor.head?_of_atKeyword {c : Cursor} {word : Text} {ch : Char} (h : c.atKeyword word)
    (hword : word.head? = some ch) : c.rest.head? = some ch := by
  have hstarts : word <+: c.rest := by
    by_contra hno
    exact not_atKeyword hno h
  obtain ⟨v, hv⟩ := hstarts
  rw [← hv, List.head?_append, hword]
  rfl

/-- Every form of a matcher starts with a character of its own. -/
theorem MatcherForm.Head.head? {form : MatcherForm} {c : Cursor} (h : form.Head c) :
    c.rest.head? = some form.initial := by
  cases form with
  | block => exact Cursor.head?_of_peek h
  | event | producer | tick | negation | disjunction | conjunction =>
    exact Cursor.head?_of_atKeyword h rfl

/-- At most one form of a matcher has its head at a given place. -/
theorem MatcherForm.Head.unique {form other : MatcherForm} {c : Cursor} (h : form.Head c)
    (h' : other.Head c) : other = form :=
  initial_injective (Option.some.inj (h'.head?.symm.trans h.head?))

namespace Parser

variable (read : Parser Literal) (inner : Parser Matcher)

/-- Every form of a matcher commits to its head. -/
theorem matcherForm_commits (form : MatcherForm) :
    (matcherForm read inner form).Commits form.Head := by
  cases form with
  | tick => exact (keyword_commits _).bind fun _ => .pure _
  | block => exact (symbol_commits _).bind fun _ => .committed _
  | event | producer | negation | disjunction | conjunction =>
    exact (keyword_commits _).bind fun _ => .committed _

/-- The form whose head stands at the cursor is the one that is taken. -/
theorem outcome_matcherForms {form : MatcherForm} {c : Cursor} (h : form.Head c) :
    (alt (MatcherForm.all.map (matcherForm read inner))).outcome c =
      (matcherForm read inner form).outcome c :=
  outcome_alt_map form.mem_all (matcherForm_commits read inner) h fun _ => h.unique

theorem matchClause_commits [NestingLimit] (terms : Terms) :
    (matchClause terms).Commits (·.atKeyword "match") :=
  (keyword_commits _).bind fun _ => .committed _

end Parser

/-! ### Statements -/

/-- The head of a form of a statement: its keyword, and for a peripheral also the keyword before its
gateways. -/
def StatementForm.Head : StatementForm → Cursor → Prop
  | peripheral, c => c.atKeyword "pub" ∨ c.atKeyword "peripheral"
  | letState, c => c.atKeyword "let"
  | const, c => c.atKeyword "const"
  | send, c => c.atKeyword "send"
  | doBlock, c => c.atKeyword "do"
  | setState, c => c.atKeyword "set"

namespace Parser

theorem binding_commits (read : Parser Literal) (word : Text) :
    (binding read word).Commits (·.atKeyword word) :=
  (keyword_commits _).bind fun _ => .committed _

theorem gatewayList_commits (read : Parser Literal) :
    (gatewayList read).Commits (·.atKeyword "pub") :=
  (keyword_commits _).bind fun _ => .committed _

/-- A peripheral commits to `peripheral` and to the keyword of gateways. -/
theorem peripheralStatement_commits (read : Parser Literal) :
    (peripheralStatement read).Commits (StatementForm.Head .peripheral) :=
  (gatewayList_commits read).optional_bind (fun _ => .committed _)
    ((keyword_commits _).bind fun _ => .committed _)

/-- Every form of a statement commits to its head. -/
theorem statementForm_commits [NestingLimit] (terms : Terms) (form : StatementForm) :
    (statementForm terms form).Commits form.Head := by
  cases form with
  | peripheral => exact (peripheralStatement_commits _).map
  | letState =>
    exact ((binding_commits _ _).bind fun _ => (Sure.committed _).bind fun _ =>
      (Sure.note _).bind fun _ => .pure _).map
  | const => exact ((binding_commits _ _).bind fun _ => (Sure.note _).bind fun _ => .pure _).map
  | send | doBlock | setState =>
    exact ((keyword_commits _).bind fun _ => (Sure.committed _).bind fun _ =>
      (Sure.note _).bind fun _ => (Sure.conjunction _).bind fun _ => .pure _).map

theorem fireClause_commits [NestingLimit] (terms : Terms) :
    (fireClause terms).Commits (·.atKeyword "fire") :=
  (keyword_commits _).bind fun _ => .committed _

end Parser

/-! ### The parsers that commit -/

/-- The parsers that commit: the statements, the two clauses of a block, the forms of a matcher and
the calls of items. -/
inductive Committing
  | statement (form : StatementForm)
  | matchClause
  | fireClause
  | matcher (form : MatcherForm)
  | extractorCall
  | filterCall
  | producerCall

namespace Committing

/-- What is read. -/
def Value : Committing → Type
  | statement _ => Statement
  | matchClause | matcher _ => Matcher
  | fireClause => Creator
  | extractorCall => Extractor
  | filterCall => Filter
  | producerCall => Producer

variable [NestingLimit]

/-- The parser in a scope, where `inner` reads the matchers within a matcher. -/
def parser (scope : Scope) (inner : Parser Matcher) : (k : Committing) → Parser k.Value
  | statement form => Parser.statementForm scope form
  | matchClause => Parser.matchClause scope.constants
  | fireClause => Parser.fireClause scope.constants
  | matcher form => Parser.matcherForm scope.constants inner form
  | extractorCall => Parser.extractorCall scope.constants
  | filterCall => Parser.filterCall scope.constants
  | producerCall => Parser.producerCall scope.constants

/-- The head stands at the cursor. -/
def Head : Committing → Cursor → Prop
  | statement form, c => form.Head c
  | matchClause, c => c.atKeyword "match"
  | fireClause, c => c.atKeyword "fire"
  | matcher form, c => form.Head c
  | extractorCall, c => ItemName.Head ExtractorName c
  | filterCall, c => ItemName.Head FilterName c
  | producerCall, c => ItemName.Head ProducerName c

variable (scope : Scope) (inner : Parser Matcher) (k : Committing)

theorem parser_commits : (k.parser scope inner).Commits k.Head := by
  cases k with
  | statement form => exact Parser.statementForm_commits scope form
  | matchClause => exact Parser.matchClause_commits scope.constants
  | fireClause => exact Parser.fireClause_commits scope.constants
  | matcher form => exact Parser.matcherForm_commits scope.constants inner form
  | extractorCall | filterCall | producerCall =>
    exact Parser.itemCall_commits _ scope.constants

/-- A parser that commits fails recoverably exactly where its head is missing. Where the head
stands, every failure is fatal, and the combinators around the parser hand it on. -/
theorem head_commits (c : Cursor) :
    ((∃ d : Diagnostic, (k.parser scope inner).outcome c = .error d ∧ d.isFatal = false) ↔
        ¬ k.Head c) ∧
      ∀ e, k.Head c → (k.parser scope inner).outcome c = .error e →
        e.isFatal ∧ (k.parser scope inner).Reraised c e := by
  have hcommits := parser_commits scope inner k
  refine ⟨hcommits c, fun e hhead he => ?_⟩
  have hfatal := hcommits.isFatal hhead he
  exact ⟨hfatal, Parser.reraised_of_isFatal he hfatal⟩

end Committing

end EventRules
