/-
# Written programs

Statements that are written one on each line are taken in one after the other: the run over their
text leads where taking them in leads, whatever places they remember.
-/

import EventRules.Proofs.Run
import EventRules.Proofs.WrittenStatement

namespace EventRules

namespace Progress

variable {p q : Progress}

/-- Takes in statements one after the other. -/
def addAll (p : Progress) : List Statement → Except Failure Progress
  | [] => .ok p
  | s :: ss => p.add s >>= fun r => r.2.addAll ss

/-- A statement that is not refused is taken in first. -/
theorem addAll_cons {s : Statement} (h : p.refusal? s = none) (ss : List Statement) :
    p.addAll (s :: ss) = (p.extend s).addAll ss := by
  rw [addAll, add_eq_ok_iff.2 ⟨h, rfl⟩]
  rfl

theorem addAll_append (p : Progress) (ss ts : List Statement) :
    p.addAll (ss ++ ts) = p.addAll ss >>= fun q => q.addAll ts := by
  induction ss generalizing p with
  | nil => rfl
  | cons s ss ih =>
    rw [List.cons_append, addAll, addAll]
    cases p.add s with
    | error e => rfl
    | ok r => exact ih r.2

/-- Statements that introduce other names keep the truth values spared. -/
theorem sparesBooleans_extend [NestingLimit] {s : Statement} (hs : s.Writable)
    (hclear : p.symbols.constants.SparesBooleans) :
    (p.extend s).symbols.constants.SparesBooleans := by
  have hinsert : ∀ {name : Text} (l : Literal), name.IsFreshName →
      (p.symbols.constants.insert name l).SparesBooleans := by
    intro name l hname b
    rw [Table.get?_insert, if_neg (hname.2 b)]
    exact hclear b
  cases s with
  | rule r | clause m => exact hclear
  | declaration d =>
    cases d with
    | constant name l location => exact hinsert l hs.1
    | state name v location => exact hinsert _ hs.1
    | peripheral index x location length => exact hclear

end Progress

/-- Statements as they are written, one on each line. -/
def Statement.lines (ss : List Statement) : Text :=
  ss.flatMap fun s => s.written ++ ['\n']

theorem Statement.lines_cons (s : Statement) (ss : List Statement) :
    lines (s :: ss) = s.written ++ '\n' :: lines ss := by
  rw [lines, List.flatMap_cons, List.append_assoc]
  rfl

/-- A statement starts with neither space nor a semicolon. -/
theorem Statement.starts_written (s : Statement) :
    s.written.Starts fun c => !(isSpace c || c = ';') := by
  cases s with
  | rule p | clause m => exact Text.starts_cons.2 (by decide)
  | declaration d =>
    cases d with
    | constant name l location | state name v location => exact Text.starts_cons.2 (by decide)
    | peripheral index p location length =>
      change (Peripheral.gatewayText p.gateways ++ p.bodyText index).Starts _
      cases p.gateways <;> exact Text.starts_cons.2 (by decide)

/-- No semicolon comes next at the start of a line. -/
theorem Statement.noSemicolon_lines (ss : List Statement) :
    Text.NoSemicolon ('\n' :: lines ss) := by
  cases ss with
  | nil => exact fun _ h => nomatch h
  | cons s ss =>
    have hstarts : (lines (s :: ss)).Starts fun c => !(isSpace c || c = ';') := by
      rw [lines_cons]
      exact s.starts_written.append _
    have hdrop : ('\n' :: lines (s :: ss)).dropWhile isSpace = lines (s :: ss) := by
      rw [List.dropWhile_cons_of_pos (by decide)]
      cases hlines : lines (s :: ss) with
      | nil => rfl
      | cons c t =>
        rw [hlines, Text.starts_cons] at hstarts
        exact List.dropWhile_cons_of_neg (by simp_all)
    rw [Text.NoSemicolon, hdrop]
    exact hstarts.stops (by simp)

/-- A written statement is read at once: no space has to be skipped before it. -/
theorem Cursor.skipSpace_of_statement {c : Cursor} (hc : c.inSource) {s : Statement} {t : Text}
    (hrest : c.rest = s.written ++ t) : c.skipSpace = c := by
  have hstops : c.rest.Stops isSpace := by
    rw [hrest]
    exact (s.starts_written.append _).stops (by simp_all)
  rw [skipSpace_of_rest (u := []) rfl (fun _ h => nomatch h) hstops, List.length_nil,
    advance_zero hc]

/-- The run over written statements leads where taking them in leads. -/
theorem Progress.run_written [NestingLimit] {ss : List Statement} {p q : Progress} {c : Cursor}
    (hclear : p.symbols.constants.SparesBooleans) (hss : ∀ s ∈ ss, s.Writable)
    (h : p.addAll ss = .ok q) (hc : c.inSource) (hrest : c.rest = Statement.lines ss) :
    (p.run c).outcome = .ok q := by
  -- by induction on the statements: each is one step, and the line feed after it is skipped
  induction ss generalizing p c with
  | nil =>
    cases h
    have hend : c.skipSpace.atEnd := by
      rw [Cursor.atEnd, Cursor.rest_skipSpace, hrest]
      rfl
    rw [outcome_run, if_pos hend]
  | cons s ss ih =>
    rw [List.forall_mem_cons] at hss
    obtain ⟨r, hadd, hmore⟩ := bind_eq_ok.1 h
    have hline : c.rest = s.written ++ '\n' :: Statement.lines ss :=
      hrest.trans (Statement.lines_cons s ss)
    have hskip : c.skipSpace = c := Cursor.skipSpace_of_statement hc hline
    have hend : ¬ c.skipSpace.atEnd := by
      rw [hskip, Cursor.atEnd, hline, List.isEmpty_iff]
      exact (s.starts_written.append _).ne_nil
    obtain ⟨s', hok, hs'⟩ := Parser.statement_reads hclear hss.1
      (Statement.noSemicolon_lines ss) hc hline
    obtain ⟨hnew, hr⟩ := add_eq_ok_iff.1 (add_of_unlocated hs'.symm hadd)
    have hstep : p.step.outcome c = .ok (r.2, c.advance s.written.length) :=
      step_eq_ok_iff.2 ⟨s', hok, hnew, congrArg Prod.snd hr⟩
    have hspares : r.2.symbols.constants.SparesBooleans := by
      rw [(add_eq_ok_iff.1 hadd).2]
      exact sparesBooleans_extend hss.1 hclear
    have hnext : (c.advance s.written.length).rest = '\n' :: Statement.lines ss := by
      rw [Cursor.rest_advance, hline, List.drop_left]
    have hfeed : ((c.advance s.written.length).advance 1).skipSpace =
        (c.advance s.written.length).skipSpace := by
      apply Cursor.skipSpace_advance <;> rw [hnext]
      · exact Nat.le_add_left 1 _
      · exact List.forall_mem_singleton.2 (by decide)
    rw [outcome_run, if_neg hend, hskip, hstep, ok_bind, ← outcome_run_congr hfeed]
    exact ih hspares hss.2 hmore (Cursor.inSource_advance _ _)
      (by rw [Cursor.rest_advance, hnext]; rfl)

end EventRules
