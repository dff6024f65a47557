/-
# Compilation with and without redeclaration

Whether redeclaration is allowed shows only at a declaration of a name or an index that is taken. Up
to the first such declaration two runs that differ in this alone go in lock step: they read the same
statements and have the same symbols. There the strict run ends with a refusal, which points at the
name or the index; without it both runs have the same outcome.
-/

import EventRules.Proofs.Failure

namespace EventRules

/-- The progress with redeclaration allowed from now on. -/
def Progress.lenient (p : Progress) : Progress :=
  { p with symbols := { p.symbols with redeclaration := true } }

namespace Progress

variable {p q : Progress} {c d : Cursor} {s t : Progress × Cursor} {st : Statement}

/-- The statement declares a name or an index that is taken. -/
def takes (p : Progress) : Statement → Bool
  | .rule _ | .clause _ => false
  | .declaration d => p.symbols.takes d

/-- A statement is refused if it declares what is taken and redeclaration is not allowed. -/
theorem refusal?_eq_none_iff (hst : st.isProper) :
    p.refusal? st = none ↔ p.takes st = false ∨ p.symbols.redeclaration = true := by
  cases st with
  | clause m => cases hst
  | rule r => simp [refusal?, takes]
  | declaration d =>
    rw [refusal?, takes, Symbols.refuses]
    cases p.symbols.takes d <;> cases p.symbols.redeclaration <;> simp

theorem extend_lenient (p : Progress) (st : Statement) :
    p.lenient.extend st = (p.extend st).lenient := by
  cases st with
  | rule r | clause m => rfl
  | declaration d => cases d <;> rfl

/-! ### Statements that declare nothing twice -/

variable [NestingLimit]

/-- A statement is read after space and taken in that declares nothing that is taken. -/
def NextNew (s t : Progress × Cursor) : Prop :=
  s.2.skipSpace.atEnd = false ∧
    ∃ st, (Parser.statement s.1.symbols.toScope).outcome s.2.skipSpace = .ok (st, t.2) ∧
      s.1.takes st = false ∧ t.1 = s.1.extend st

/-- A step to something new is a step. -/
theorem NextNew.next (h : NextNew s t) : Next s t := by
  obtain ⟨hlive, st, hst, hnew, hextend⟩ := h
  have hrefusal := (refusal?_eq_none_iff (Parser.isProper_of_statementIn hst)).2 (.inl hnew)
  exact ⟨hlive, step_eq_ok_iff.2 ⟨st, hst, hrefusal, hextend⟩⟩

/-- Where redeclaration is refused, every step is to something new. -/
theorem Next.nextNew (h : Next s t) (hs : s.1.symbols.redeclaration = false) : NextNew s t := by
  obtain ⟨st, hst, hrefusal, hextend⟩ := step_eq_ok_iff.1 h.2
  have hnew := (refusal?_eq_none_iff (Parser.isProper_of_statementIn hst)).1 hrefusal
  exact ⟨h.1, st, hst, hnew.resolve_right (by simp [hs]), hextend⟩

/-- Without redeclaration, a run reaches nothing but what it reaches by such statements. -/
theorem Reaches.nextNew (h : Reaches s t) (hs : s.1.symbols.redeclaration = false) :
    Relation.ReflTransGen NextNew s t := by
  induction h with
  | refl => exact .refl
  | tail hreach hnext ih =>
    exact ih.tail (hnext.nextNew ((Reaches.redeclaration_eq hreach).trans hs))

/-- The steps of both runs are the same as long as nothing is declared twice. -/
theorem NextNew.lenient (h : NextNew s t) :
    NextNew (s.1.lenient, s.2) (t.1.lenient, t.2) := by
  obtain ⟨hlive, st, hst, hnew, hextend⟩ := h
  refine ⟨hlive, st, hst, ?_, ?_⟩
  · rw [← hnew]
    cases st with
    | rule r | clause m => rfl
    | declaration d => cases d <;> rfl
  · rw [extend_lenient, hextend]

/-- The lenient run reaches what the strict run reaches by statements that declare nothing twice. -/
theorem reaches_lenient (h : Relation.ReflTransGen NextNew (p, c) (q, d)) :
    Reaches (p.lenient, c) (q.lenient, d) :=
  h.lift (fun s => (s.1.lenient, s.2)) fun _ _ hnext => hnext.lenient.next

/-- A strict run ends as the lenient one, or it is refused at the first statement that declares
something twice. -/
theorem outcome_run_lenient (c : Cursor) (hp : p.symbols.redeclaration = false) :
    (p.lenient.run c).outcome = (p.run c).outcome.map lenient ∨
      ∃ q c' decl e, Relation.ReflTransGen NextNew (p, c) (q, c') ∧
        (Parser.statement q.symbols.toScope).outcome c'.skipSpace = .ok (.declaration decl, e) ∧
        q.symbols.takes decl = true ∧ (p.run c).outcome = .error decl.duplicate := by
  obtain ⟨q, c', hreach, hend⟩ := p.exists_reaches c
  have hnew := hreach.nextNew hp
  have hlenient := (reaches_lenient hnew).outcome_run_eq
  -- the lenient run gets as far as the strict one, so only what comes next is left to compare
  rcases hend with ⟨hend, hok⟩ | ⟨hlive, d, hstep, herror⟩
  · left
    rw [hlenient, hok, outcome_run, if_pos hend]
    rfl
  · rcases step_eq_error_iff.1 hstep with hread | ⟨st, e, hst, hrefusal⟩
    · left
      have hstep' : q.lenient.step.outcome c'.skipSpace = .error d :=
        step_eq_error_iff.2 (.inl hread)
      rw [hlenient, herror, outcome_run, if_neg (by simp [hlive]), hstep']
      rfl
    · -- a statement that is read and refused: here alone the runs part
      obtain ⟨decl, rfl, hrefuses, rfl⟩ :=
        (refusal?_eq_some_iff (Parser.isProper_of_statementIn hst)).1 hrefusal
      rw [Symbols.refuses, Bool.and_eq_true] at hrefuses
      exact .inr ⟨q, c', decl, e, hnew, hst, hrefuses.1, herror⟩

/-- No finding of a run with redeclaration is about a name that was declared before. -/
theorem problem_of_run (hp : p.symbols.redeclaration = true) {e : Diagnostic}
    (h : (p.run c).outcome = .error e) : ∀ f ∈ e.findings, f.problem ≠ .duplicateName := by
  obtain ⟨q, c', hreach, ⟨-, hok⟩ | ⟨-, d, hstep, herror⟩⟩ := p.exists_reaches c
  · rw [h] at hok
    cases hok
  · rw [h] at herror
    cases herror
    rcases step_eq_error_iff.1 hstep with hread | ⟨st, _, hst, hrefusal⟩
    · have horderly : e.Orderly _ := Parser.orderly_of_statement c'.inSource_skipSpace hread
      exact fun f hf => (horderly.of_mem_findings hf).problem
    · have hnew := (refusal?_eq_none_iff (p := q) (Parser.isProper_of_statementIn hst)).2
        (.inr (hreach.redeclaration_eq.trans hp))
      exact nomatch hnew.symm.trans hrefusal

end Progress

namespace Options

/-- With and without redeclaration, and all other options the same, a compilation has the same
outcome; or without redeclaration it fails with a refusal alone, at the name or the index of the
first declaration whose name or index is taken. With redeclaration nothing is ever refused. -/
theorem compileText_redeclaration [NestingLimit] (o : Options) (name text : Text) :
    let strict : Options := { o with redeclaration := false }
    let lenient : Options := { o with redeclaration := true }
    ((strict.compileText name text).outcome = (lenient.compileText name text).outcome ∨
      ∃ q c d e, Relation.ReflTransGen Progress.NextNew
          (strict.start, (strict.source name text).start) (q, c) ∧
        (Parser.statement q.symbols.toScope).outcome c.skipSpace = .ok (.declaration d, e) ∧
        q.symbols.takes d = true ∧
        ∃ l m, d.PlacedAt q.symbols.constants c.skipSpace l m ∧
          (strict.compileText name text).outcome = .error (Diagnostic.finding {
            location := some l
            problem := .duplicateName
            length := some (m.offset - l.offset)
            severity := .fatal })) ∧
    ∀ e : Diagnostic, (lenient.compileText name text).outcome = .error e →
      ∀ f ∈ e.findings, f.problem ≠ .duplicateName := by
  intro strict lenient
  have hlenient : (lenient.compileText name text).outcome =
      (strict.start.lenient.run (strict.source name text).start).outcome.map
        (·.program (strict.source name text).name) := lenient.outcome_compileText name text
  rw [strict.outcome_compileText, hlenient]
  generalize (strict.source name text).start = start
  constructor
  · rcases Progress.outcome_run_lenient (p := strict.start) start rfl with
      hsame | ⟨q, c, d, e, hnew, hread, htaken, herror⟩
    · left
      rw [hsame]
      cases (strict.start.run start).outcome <;> rfl
    · obtain ⟨l, m, hplaced⟩ := Parser.placed_of_statement c.inSource_skipSpace hread
      refine .inr ⟨q, c, d, e, hnew, hread, htaken, l, m, hplaced, ?_⟩
      rw [herror, Declaration.duplicate, hplaced.place]
      rfl
  · exact fun e he => Progress.problem_of_run rfl (map_eq_error.1 he)

end Options

end EventRules
