/-
# How compilation fails

A compilation that fails does so at one statement: everything before it has been read and taken in,
and the diagnostic is that of the one step. It has the shape of a tree with a fatal root and
recoverable nodes below, and all its findings point into the source, from the start of that
statement on.
-/

import EventRules.Proofs.OrderlyStatement
import EventRules.Proofs.Run

namespace EventRules

namespace Progress

variable [NestingLimit] {p : Progress} {c : Cursor} {e : Failure}

/-- A step that fails at a position in the source fails with a diagnostic, which is fatal and has
findings that point from there on. -/
theorem orderly_of_step (hc : c.inSource) (h : p.step.outcome c = .error e) :
    ∃ d : Diagnostic, e = d ∧ d.Orderly (Finding.PointsFrom c) ∧ d.isFatal = true := by
  rcases step_eq_error_iff.1 h with hread | ⟨s, c', hread, hrefusal⟩
  · have horderly := Parser.orderly_of_statement hc hread
    have hfatal := Parser.isFatal_of_statement hread
    cases e with
    | diagnostic d => exact ⟨d, rfl, .mono (fun _ hf => hf.points) horderly, hfatal⟩
    | fault f => exact horderly.elim
  · -- what was read is a declaration or a rule, and only the former can be refused
    obtain ⟨decl, rfl, -, rfl⟩ :=
      (refusal?_eq_some_iff (Parser.isProper_of_statementIn hread)).1 hrefusal
    obtain ⟨n, e, hplaced⟩ := Parser.placed_of_statement hc hread
    exact ⟨_, rfl, hplaced.duplicate_orderly hc, rfl⟩

end Progress

namespace Options

/-- A compilation succeeds with all statements, or it fails with the step at a statement that it
reaches. -/
theorem outcome_compileText_cases [NestingLimit] (o : Options) (name text : Text) :
    ∃ q c, Progress.Reaches (o.start, (o.source name text).start) (q, c) ∧
      (c.skipSpace.atEnd = true ∧
          (o.compileText name text).outcome = .ok (q.program (o.source name text).name) ∨
        c.skipSpace.atEnd = false ∧ ∃ e, q.step.outcome c.skipSpace = .error e ∧
          (o.compileText name text).outcome = .error e) := by
  obtain ⟨q, c, hreach, hend⟩ := o.start.exists_reaches (o.source name text).start
  rw [outcome_compileText]
  refine ⟨q, c, hreach, hend.imp (And.imp_right fun hok => ?_) (And.imp_right ?_)⟩
  · rw [hok]
    rfl
  · rintro ⟨e, hstep, herror⟩
    exact ⟨e, hstep, map_eq_error.2 herror⟩

/-- A compilation has a result, or it fails with a diagnostic of the right shape. No part of the
compiler ever misses what it relies on, so that none of its faults occurs. -/
theorem compileText_wellShaped [NestingLimit] (o : Options) (name text : Text) :
    ((∃ p, (o.compileText name text).outcome = .ok p) ∨
      ∃ d, (o.compileText name text).outcome = .error (.diagnostic d) ∧ d.WellShaped) ∧
    ∀ f, (o.compileText name text).outcome ≠ .error (.fault f) := by
  obtain ⟨q, c, -, ⟨-, hok⟩ | ⟨-, e, hstep, herror⟩⟩ := o.outcome_compileText_cases name text
  · exact ⟨.inl ⟨_, hok⟩, fun f hf => nomatch hok.symm.trans hf⟩
  · obtain ⟨d, rfl, horderly, hfatal⟩ := Progress.orderly_of_step c.inSource_skipSpace hstep
    exact ⟨.inr ⟨d, herror, horderly.wellShaped (fun _ hf => hf.isSome_location) hfatal⟩,
      fun f hf => nomatch herror.symm.trans hf⟩

/-- A declaration without a value fails, and the diagnostic lists what a literal may be. -/
theorem compileText_wellShaped_missing_literal :
    let o : Options := { eventCodes := false }
    ∃ d : Diagnostic, (o.compileText "" "let a = ;").outcome = .error d ∧
      d.findings.length = 6 ∧ d.WellShaped := by
  intro o
  obtain ⟨d, hd, hlength⟩ := exists_of_diagnosis?_map
    (x := (o.compileText "" "let a = ;").outcome) (f := fun d => d.findings.length) (b := 6)
    (by decide +kernel)
  obtain ⟨⟨p, hp⟩ | ⟨d', hd', hshape⟩, -⟩ := compileText_wellShaped o "" "let a = ;"
  · exact nomatch hd.symm.trans hp
  · cases hd.symm.trans hd'
    exact ⟨d, hd, hlength, hshape⟩

/-- When a compilation fails, all statements before the failing one have been read and taken in, and
every finding lies in the source without its comments, from the start of the failing statement
on. -/
theorem findings_of_compileText [NestingLimit] (o : Options) (name text : Text) (d : Diagnostic)
    (h : (o.compileText name text).outcome = .error d) :
    ∃ q c, Progress.Reaches (o.start, (o.source name text).start) (q, c) ∧
      c.skipSpace.atEnd = false ∧ q.step.outcome c.skipSpace = .error d ∧
      ∀ f ∈ d.findings, f.LiesIn (o.source name text) c.skipSpace.offset := by
  obtain ⟨q, c, hreach, ⟨-, hok⟩ | ⟨hlive, e, hstep, herror⟩⟩ :=
    o.outcome_compileText_cases name text
  · rw [h] at hok
    cases hok
  · rw [h] at herror
    cases herror
    refine ⟨q, c, hreach, hlive, hstep, fun f hf => ?_⟩
    obtain ⟨_, heq, horderly, -⟩ := Progress.orderly_of_step c.inSource_skipSpace hstep
    cases heq
    have hpoints := horderly.of_mem_findings hf
    have hsource : c.skipSpace.source = o.source name text := hreach.leads.source_eq
    exact hsource ▸ hpoints.liesIn c.inSource_skipSpace

/-- After a declaration and a comment, a rule names a state variable that does not exist: the one
finding is the name, behind the start of the rule. -/
theorem findings_of_unknown_variable :
    let o : Options := { eventCodes := false }
    let text : Text := "let a = 1~u8; // on\nset b to 2~u8 on 3~u16 from 4~u16;"
    ∃ d : Diagnostic, (o.compileText "" text).outcome = .error d ∧
      d.findings.map (fun f => (f.location.map Cursor.offset, f.length)) = [(some 24, some 1)] ∧
      ∃ q c, Progress.Reaches (o.start, (o.source "" text).start) (q, c) ∧
        c.skipSpace.atEnd = false ∧ q.step.outcome c.skipSpace = .error d ∧
        ∀ f ∈ d.findings, f.LiesIn (o.source "" text) c.skipSpace.offset := by
  intro o text
  obtain ⟨d, hd, hfindings⟩ := exists_of_diagnosis?_map (x := (o.compileText "" text).outcome)
    (f := fun d => d.findings.map fun f => (f.location.map Cursor.offset, f.length))
    (b := [(some 24, some 1)]) (by decide +kernel)
  exact ⟨d, hd, hfindings, findings_of_compileText o "" text d hd⟩

end Options

end EventRules
