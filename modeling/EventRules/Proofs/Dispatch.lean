/-
# The order of the forms

A statement and a matcher are read by trying forms in an order. The order does not matter. At most
one form has its head at a given place. Where it stands, that form is taken, and its failures are
final. Where no head stands, each form reports that its head is missing, so a change of the order
only rearranges the list of these reports.
-/

import EventRules.Proofs.Composition

namespace EventRules

namespace Diagnostic

/-- The diagnostics have the same nodes, and only the order of the alternatives in their choices may
differ. -/
inductive Rearranged : Diagnostic → Diagnostic → Prop
  | refl (d : Diagnostic) : Rearranged d d
  | because {d e : Diagnostic} (f : Finding) (h : Rearranged d e) :
    Rearranged (because f d) (because f e)
  | oneOf {ds es : List Diagnostic} (h : ds.Perm es) (severity : Severity) :
    Rearranged (oneOf ds severity) (oneOf es severity)

namespace Rearranged

variable {d e : Diagnostic}

theorem isFatal_eq (h : d.Rearranged e) : d.isFatal = e.isFatal := by
  cases h <;> rfl

/-- A rearranged diagnostic is escalated alike. -/
theorem escalate (h : d.Rearranged e) : d.escalate.Rearranged e.escalate := by
  cases h with
  | refl => exact .refl _
  | because f h => exact .because _ h
  | oneOf h => exact .oneOf h _

/-- A change of the order of failures only rearranges their choice. -/
theorem combine {failures failures' : List Diagnostic} (h : failures.Perm failures') :
    (Diagnostic.combine failures).Rearranged (Diagnostic.combine failures') :=
  .oneOf (h.flatMap_right _) _

end Rearranged

end Diagnostic

namespace Failure

/-- The same fault, or diagnostics that differ in the order of alternatives only. -/
inductive Rearranged : Failure → Failure → Prop
  | diagnostic {d e : Diagnostic} (h : d.Rearranged e) : Rearranged d e
  | fault (f : Fault) : Rearranged f f

namespace Rearranged

variable {d e : Failure}

theorem refl (e : Failure) : e.Rearranged e := by
  cases e with
  | diagnostic d => exact .diagnostic (.refl d)
  | fault f => exact .fault f

theorem isFatal_eq (h : d.Rearranged e) : d.isFatal = e.isFatal := by
  cases h with
  | diagnostic h => exact h.isFatal_eq
  | fault => rfl

/-- What keeps diagnostics rearranged keeps failures so. -/
theorem map {g : Diagnostic → Diagnostic} (h : d.Rearranged e)
    (hg : ∀ d e : Diagnostic, d.Rearranged e → (g d).Rearranged (g e)) :
    (d.map g).Rearranged (e.map g) := by
  cases h with
  | diagnostic h => exact .diagnostic (hg _ _ h)
  | fault f => exact .fault f

end Rearranged

end Failure

/-- The same result, or failures that differ in the order of alternatives only. -/
inductive SameUpToOrder {α : Type} : Except Failure α → Except Failure α → Prop
  | ok (a : α) : SameUpToOrder (.ok a) (.ok a)
  | error {d e : Failure} (h : d.Rearranged e) : SameUpToOrder (.error d) (.error e)

namespace SameUpToOrder

variable {α β : Type} {x y : Except Failure α}

theorem refl (x : Except Failure α) : SameUpToOrder x x := by
  cases x with
  | ok a => exact .ok a
  | error e => exact .error (.refl e)

/-- Sequences of results are the same up to order if their parts are. -/
theorem bind {f g : α → Except Failure β} (h : SameUpToOrder x y)
    (hfg : ∀ a, x = .ok a → SameUpToOrder (f a) (g a)) : SameUpToOrder (x >>= f) (y >>= g) := by
  cases h with
  | ok a => exact hfg a rfl
  | error h => exact .error h

theorem mapError {g : Diagnostic → Diagnostic} (h : SameUpToOrder x y)
    (hg : ∀ d e : Diagnostic, d.Rearranged e → (g d).Rearranged (g e)) :
    SameUpToOrder (x.mapError (Failure.map g)) (y.mapError (Failure.map g)) := by
  cases h with
  | ok a => exact .ok a
  | error h => exact .error (h.map hg)

theorem cases (h : SameUpToOrder x y) :
    (∃ a, x = .ok a ∧ y = .ok a) ∨ ∃ d e, x = .error d ∧ y = .error e ∧ d.Rearranged e := by
  cases h with
  | ok a => exact .inl ⟨a, rfl, rfl⟩
  | error h => exact .inr ⟨_, _, rfl, rfl, h⟩

/-- A failure is passed over on both sides or on neither. -/
theorem recover {d e : Failure} (h : d.Rearranged e) (a : α) :
    SameUpToOrder (if d.isFatal then .error d else .ok a)
      (if e.isFatal then .error e else .ok a) := by
  rw [h.isFatal_eq]
  split
  · exact .error h
  · exact .ok a

end SameUpToOrder

namespace Parser

variable {α β : Type} {p q : Parser α}

/-- The parsers do the same everywhere, up to the order of alternatives in their failures. -/
def Matches (p q : Parser α) : Prop :=
  ∀ c, SameUpToOrder (p.outcome c) (q.outcome c)

namespace Matches

theorem refl (p : Parser α) : p.Matches p :=
  fun c => .refl (p.outcome c)

/-- Sequences match if their parts do. -/
theorem bind {f g : α → Parser β} (h : p.Matches q) (hfg : ∀ a, (f a).Matches (g a)) :
    (p >>= f).Matches (q >>= g) := by
  intro c
  rw [outcome_bind, outcome_bind]
  exact (h c).bind fun r _ => hfg r.1 r.2

theorem committed (h : p.Matches q) : (Parser.committed p).Matches (Parser.committed q) := by
  intro c
  rw [outcome_committed, outcome_committed]
  exact (h c).mapError fun _ _ => .escalate

/-- An option is left out by both or by neither. -/
theorem optional (h : p.Matches q) : (Parser.optional p).Matches (Parser.optional q) := by
  intro c
  rw [outcome_optional, outcome_optional]
  obtain ⟨r, hp, hq⟩ | ⟨d, e, hp, hq, hde⟩ := (h c).cases
  · rw [hp, hq]
    exact .ok _
  · rw [hp, hq]
    exact .recover hde _

/-- Repetitions match if their elements do, by induction on what remains of the source. -/
theorem many0 (h : p.Matches q) : (Parser.many0 p).Matches (Parser.many0 q) := by
  intro c
  induction hn : c.remaining using Nat.strongRecOn generalizing c with
  | ind n ih =>
    rw [outcome_many0, outcome_many0]
    obtain ⟨r, hp, hq⟩ | ⟨d, e, hp, hq, hde⟩ := (h c).cases
    · rw [hp, hq]
      dsimp only
      split
      · next hlt => exact (ih _ (hn ▸ hlt) r.2 rfl).bind fun s _ => .ok _
      · exact .ok _
    · rw [hp, hq]
      exact .recover hde _

theorem moreElements (separator : Text) (h : p.Matches q) :
    (Parser.moreElements separator p).Matches (Parser.moreElements separator q) := by
  intro c
  induction hn : c.remaining using Nat.strongRecOn generalizing c with
  | ind n ih =>
    rw [outcome_moreElements, outcome_moreElements]
    split
    · refine (h _).bind fun r _ => ?_
      split
      · next hlt => exact (ih _ (hn ▸ hlt) r.2 rfl).bind fun s _ => .ok _
      · exact .ok _
    · exact .ok _

/-- The elements of lists match if elements do. -/
theorem elements (h : p.Matches q) : (Parser.elements p).Matches (Parser.elements q) := by
  refine .bind (.refl _) fun c => ?_
  split
  · exact .refl _
  · exact h.bind fun _ => (h.moreElements _).bind fun _ => .refl _

end Matches

/-! ### Choices among forms with heads -/

section Choice

variable {ι : Type} {parser parser' : ι → Parser α} {forms forms' : List ι} {c : Cursor}
  {missing : ι → Diagnostic}

/-- Where the heads of all forms are missing, the choice lists what is missing in the order of the
forms. -/
theorem outcome_choice_of_missing {failures : List Diagnostic}
    (h : ∀ form ∈ forms, (parser form).outcome c = .error (missing form))
    (hmissing : ∀ form ∈ forms, (missing form).isFatal = false) :
    (choice failures (forms.map parser)).outcome c =
      .error (Diagnostic.combine (failures ++ forms.map missing)) := by
  induction forms generalizing failures with
  | nil =>
    rw [List.map_nil, List.map_nil, List.append_nil]
    rfl
  | cons form forms ih =>
    rw [List.forall_mem_cons] at h hmissing
    rw [List.map_cons, outcome_choice_cons, h.1]
    simp only [hmissing.1, Bool.false_eq_true, if_false]
    rw [ih h.2 hmissing.2, List.map_cons, List.append_assoc]
    rfl

/-- A choice does not depend on the order of its forms, if at most one of them has its head at a
given place and the others report that theirs is missing. -/
theorem alt_matches {head : ι → Cursor → Prop} (missing : ι → Cursor → Diagnostic)
    (hforms : forms.Perm forms') (hp : ∀ form, (parser form).Commits (head form))
    (hq : ∀ form, (parser' form).Commits (head form))
    (hunique : ∀ form other c, head form c → head other c → other = form)
    (hpmissing : ∀ form c, ¬ head form c → (parser form).outcome c = .error (missing form c))
    (hqmissing : ∀ form c, ¬ head form c → (parser' form).outcome c = .error (missing form c))
    (hmissing : ∀ form c, (missing form c).isFatal = false)
    (h : ∀ form, (parser form).Matches (parser' form)) :
    (alt (forms.map parser)).Matches (alt (forms'.map parser')) := by
  intro c
  by_cases hhead : ∃ form ∈ forms, head form c
  · obtain ⟨form, hmem, hform⟩ := hhead
    -- the form is taken in both orders, since all others decline
    have hothers : ∀ other, head other c → other = form := fun other =>
      hunique form other c hform
    rw [outcome_alt_map hmem hp hform hothers,
      outcome_alt_map (hforms.mem_iff.1 hmem) hq hform hothers]
    exact h form c
  · have hnone : ∀ form ∈ forms, ¬ head form c := fun form hmem hform => hhead ⟨form, hmem, hform⟩
    rw [alt, alt,
      outcome_choice_of_missing (fun form hmem => hpmissing form c (hnone form hmem))
        fun form _ => hmissing form c,
      outcome_choice_of_missing
        (fun form hmem => hqmissing form c (hnone form (hforms.mem_iff.2 hmem)))
        fun form _ => hmissing form c]
    exact .error (.diagnostic (.combine ((hforms.map _).append_left _)))

end Choice

/-! ### Induction on the composition -/

/-- What is put together under two orders of the forms of a matcher does the same. -/
theorem Composed.matches {b : Bool} {γ : Type} {view : α → γ} {p q : Terms → Parser α}
    (h : Composed b view p q) {t : Terms} {forms : List MatcherForm}
    (hforms : t.matchers.Perm forms) : (p t).Matches (p { t with matchers := forms }) := by
  induction h with
  | still | token | operand | slot => exact .refl _
  | here _ ih => exact .bind (.refl _) fun c => ih c c
  | bind _ _ ih ihnext => exact ih.bind fun a => ihnext a a rfl
  | after _ _ ih => exact .bind (.refl _) fun _ => ih
  | committed _ ih => exact ih.committed
  | optional _ _ _ _ ih => exact ih.optional
  | many0 _ _ _ _ ih => exact ih.many0
  | elements _ ih => exact ih.elements
  | matchers hp _ hmissing _ ih =>
    refine alt_matches MatcherForm.missing hforms (fun form => hp form _) (fun form => hp form _)
      (fun form other c => MatcherForm.Head.unique) (fun form c => hmissing form _ c)
      (fun form c => hmissing form _ c) (fun form c => ?_) ih
    cases form <;> rfl

end Parser

/-! ### Statements -/

namespace StatementForm

/-- The keyword that a form asks for where its head is missing. -/
def keyword : StatementForm → Text
  | peripheral => "peripheral"
  | letState => "let"
  | const => "const"
  | send => "send"
  | doBlock => "do"
  | setState => "set"

theorem mem_all (form : StatementForm) : form ∈ all := by
  cases form <;> decide

/-- The form whose head is a word. -/
def ofHead? (word : Text) : Option StatementForm :=
  if word = "pub" then some peripheral else all.find? (·.keyword = word)

/-- The word at the start of a statement tells its form. -/
theorem Head.ofHead?_eq {form : StatementForm} {c : Cursor} (h : form.Head c) :
    ofHead? (c.rest.takeWhile isNameChar) = some form := by
  cases form with
  | peripheral =>
    rcases h with h | h
    · rw [(Cursor.atKeyword_iff_takeWhile (by decide)).1 h]
      rfl
    · rw [(Cursor.atKeyword_iff_takeWhile (by decide)).1 h]
      rfl
  | letState | const | send | doBlock | setState =>
    rw [(Cursor.atKeyword_iff_takeWhile (by decide)).1 h]
    rfl

/-- At most one form of a statement has its head at a given place. -/
theorem Head.unique {form other : StatementForm} {c : Cursor} (h : form.Head c)
    (h' : other.Head c) : other = form :=
  Option.some.inj (h'.ofHead?_eq.symm.trans h.ofHead?_eq)

end StatementForm

namespace Parser

/-- A form whose head is missing asks for its keyword. -/
theorem statementForm_missing [NestingLimit] (terms : Terms) {form : StatementForm} {c : Cursor}
    (h : ¬ form.Head c) :
    (statementForm terms form).outcome c = .error
    (Diagnostic.expected c (.keyword form.keyword)) := by
  cases form with
  | peripheral =>
    obtain ⟨hpub, hperipheral⟩ := not_or.1 h
    rw [statementForm, outcome_map, peripheralStatement, outcome_bind, outcome_optional,
      gatewayList, outcome_keyword_bind hpub]
    exact congrArg _ (outcome_keyword_bind hperipheral)
  | letState =>
    rw [statementForm, outcome_map, letStatement, outcome_bind, binding, outcome_keyword_bind h]
    rfl
  | const =>
    rw [statementForm, outcome_map, constStatement, outcome_bind, binding, outcome_keyword_bind h]
    rfl
  | send | doBlock | setState =>
    rw [statementForm, outcome_map]
    exact congrArg _ (outcome_keyword_bind h)

/-- What a statement reports of rearranged failures is rearranged. Too deep a nesting is a single
finding. -/
theorem statementFailure_rearranged (c : Cursor) {d e : Diagnostic} (h : d.Rearranged e) :
    (statementFailure c d).Rearranged (statementFailure c e) := by
  have hothers : ∀ {d e : Diagnostic}, d.Rearranged e →
      (if d.isFatal then d else (Diagnostic.expectedBecause c .something d).escalate).Rearranged
        (if e.isFatal then e else (Diagnostic.expectedBecause c .something e).escalate) := by
    intro d e h
    rw [h.isFatal_eq]
    split
    · exact h
    · exact .because _ h
  cases h with
  | refl => exact .refl _
  | because f h => exact hothers (.because f h)
  | oneOf h severity => exact hothers (.oneOf h severity)

/-- A statement does not depend on the orders of the forms. -/
theorem statementIn_matches [NestingLimit] {t : Terms} {forms forms' : List StatementForm}
    {matchers : List MatcherForm} (hforms : forms.Perm forms')
    (hmatchers : t.matchers.Perm matchers) :
    (statementIn t forms).Matches (statementIn { t with matchers } forms') := by
  intro c
  have halt := alt_matches (fun form c => .expected c (.keyword form.keyword)) hforms
    (statementForm_commits t) (statementForm_commits { t with matchers })
    (fun form other c => StatementForm.Head.unique) (fun form c => statementForm_missing t)
    (fun form c => statementForm_missing _) (fun form c => rfl)
    fun form => (statementForm_composed (b := false) form).matches hmatchers
  rw [outcome_statementIn, outcome_statementIn]
  exact (halt c).mapError fun _ _ => statementFailure_rearranged c

/-- What a form reads, the parser of statements reads. -/
theorem statement_of_form [NestingLimit] {scope : Scope} {form : StatementForm} {c : Cursor}
    {r : Statement × Cursor} (h : (statementForm scope form).outcome c = .ok r) :
    (statement scope).outcome c = .ok r := by
  have hhead := (statementForm_commits scope form).head_of_ok h
  rw [statement, outcome_statementIn, mapError_eq_ok,
    outcome_alt_map form.mem_all (statementForm_commits scope) hhead fun _ => hhead.unique, h]

/-- Where no form applies, each of them reports its keyword, in the order of the forms. -/
theorem statementIn_of_declines [NestingLimit] {t : Terms} {forms : List StatementForm} {c : Cursor}
    (h : ∀ form ∈ forms, (statementForm t form).Declines c) :
    (statementIn t forms).outcome c = .error (Diagnostic.because
      { location := some c, problem := .expected .something, severity := .fatal }
      (.oneOf (forms.map fun form => .expected c (.keyword form.keyword)) .recoverable)) := by
  have hmissing : ∀ form ∈ forms, (statementForm t form).outcome c =
      .error (Diagnostic.expected c (.keyword form.keyword)) := fun form hmem =>
    statementForm_missing t ((statementForm_commits t form c).1 (h form hmem))
  rw [outcome_statementIn, alt, outcome_choice_of_missing hmissing fun _ _ => rfl,
    List.nil_append, Diagnostic.combine, List.flatMap_map, List.map_eq_flatMap]
  rfl

/-- Statements and matchers are read alike in every order of their forms: with the same result, or
with failures that differ in the order of alternatives only. Where no form of a statement applies,
the failure lists the keywords of all forms in their order. -/
theorem statement_dispatch [NestingLimit] (scope : Scope) (forms : List StatementForm)
    (matchers : List MatcherForm) (hforms : forms.Perm StatementForm.all)
    (hmatchers : matchers.Perm MatcherForm.all) (c : Cursor) :
    let terms : Terms := { scope.terms with matchers }
    SameUpToOrder ((statementIn terms forms).outcome c) ((statement scope).outcome c) ∧
    SameUpToOrder ((matcher terms).outcome c) ((matcher scope).outcome c) ∧
    ((∀ form, (statementForm terms form).Declines c) →
      (statementIn terms forms).outcome c = .error (Diagnostic.because
        { location := some c, problem := .expected .something, severity := .fatal }
        (.oneOf (forms.map fun form => .expected c (.keyword form.keyword)) .recoverable))) ∧
    StatementForm.all.map StatementForm.keyword =
      ["peripheral", "let", "const", "send", "do", "set"] := by
  intro terms
  refine ⟨statementIn_matches (t := terms) hforms hmatchers c, ?_, ?_, rfl⟩
  · exact (matcher_composed (b := false)).matches (t := terms) hmatchers c
  · exact fun h => statementIn_of_declines fun form _ => h form

/-- A text with which no statement starts, with both tables reversed. -/
theorem statement_dispatch_reversed :
    let terms : Terms := { ({} : Scope).terms with matchers := MatcherForm.all.reverse }
    let c := (⟨"", "pubs (1~u16)"⟩ : Source).start
    (∀ form, (statementForm terms form).Declines c) ∧
    SameUpToOrder ((statementIn terms StatementForm.all.reverse).outcome c)
      ((statement ({} : Scope)).outcome c) ∧
    (statementIn terms StatementForm.all.reverse).outcome c = .error (Diagnostic.because
      { location := some c, problem := .expected .something, severity := .fatal }
      (.oneOf (["set", "do", "send", "const", "let", "peripheral"].map
        fun word => .expected c (.keyword word)) .recoverable)) := by
  intro terms c
  have hdeclines : ∀ form, (statementForm terms form).Declines c := by
    intro form
    rw [statementForm_commits terms form c]
    intro hhead
    have hword : StatementForm.ofHead? "pubs" = some form := hhead.ofHead?_eq
    cases hword.symm.trans (by rfl : StatementForm.ofHead? "pubs" = none)
  obtain ⟨hsame, -, hnone, -⟩ := statement_dispatch {} _ _ StatementForm.all.reverse_perm
    MatcherForm.all.reverse_perm c
  exact ⟨hdeclines, hsame, hnone hdeclines⟩

end Parser

end EventRules
