/-
# Programs one after the other

Where a program goes on after another one, on a line of its own, the first is compiled as if it
stood alone, and the second as if it followed the symbol table that the first has left behind. In
diagnostics about the second, positions are counted from the start of the first.

A block may end with a semicolon or without. So a second program that starts with a semicolon would
lend it to the first, and this is the only way in which the two can interfere.
-/

import EventRules.Proofs.AlignedStatement
import EventRules.Proofs.Comments
import EventRules.Proofs.RelocatedStatement

namespace EventRules

/-! ### A source and its continuation -/

namespace Source

/-- The source with more text at its end. -/
def extend (s : Source) (more : Text) : Source :=
  { s with text := s.text ++ more }

/-- The same position in a source and in its continuation. -/
def Shares (s : Source) (more : Text) (c d : Cursor) : Prop :=
  ∃ n ≤ s.text.length, c = s.cursor n ∧ d = (s.extend more).cursor n

namespace Shares

variable {s : Source} {more : Text} {c d c' d' : Cursor}

theorem rest_eq (h : s.Shares more c d) : d.rest = c.rest ++ more := by
  obtain ⟨n, hn, rfl, rfl⟩ := h
  exact List.drop_append_of_le_length hn

/-- Positions stay at the same character as long as they stay in the shared text. -/
theorem advance (h : s.Shares more c d) {k : Nat} (hk : k ≤ c.rest.length) :
    s.Shares more (c.advance k) (d.advance k) := by
  obtain ⟨n, hn, rfl, rfl⟩ := h
  rw [Cursor.length_rest] at hk
  have hlength : n + k ≤ s.text.length := by
    simp only [cursor] at hk
    omega
  refine ⟨n + k, hlength, advance_cursor s hlength, advance_cursor _ ?_⟩
  rw [extend, List.length_append]
  omega

theorem remaining_eq (h : s.Shares more c d) : d.remaining = c.remaining + more.length := by
  have hrest := h.rest_eq
  obtain ⟨n, hn, rfl, rfl⟩ := h
  have hextend : n ≤ (s.extend more).text.length := by
    rw [extend, List.length_append]
    omega
  rw [Cursor.remaining_eq (Cursor.inSource_iff.2 hextend),
    Cursor.remaining_eq (Cursor.inSource_iff.2 hn), hrest, List.length_append]

theorem brace (h : s.Shares more c d) :
    c.previous? = some '}' ↔ d.previous? = some '}' := by
  obtain ⟨n, hn, rfl, rfl⟩ := h
  change (if n = 0 then none else s.text[n - 1]?) = some '}' ↔
    (if n = 0 then none else (s.text ++ more)[n - 1]?) = some '}'
  by_cases hstart : n = 0
  · rw [if_pos hstart, if_pos hstart]
  · rw [if_neg hstart, if_neg hstart, List.getElem?_append_left (by omega)]

/-- Space ends before the source does, if something else lies ahead. -/
theorem takeWhile_isSpace_eq (h : s.Shares more c d) (hc : c.Live) :
    d.rest.takeWhile isSpace = c.rest.takeWhile isSpace := by
  rw [h.rest_eq, List.takeWhile_append]
  split
  · next hall =>
    obtain ⟨ch, hmem, hch⟩ := hc
    rw [← (List.takeWhile_prefix isSpace).eq_of_length hall] at hmem
    simp [List.mem_takeWhile_imp hmem] at hch
  · rfl

/-- Skipping space stays in the shared text, if something else lies ahead there. -/
theorem skipSpace (h : s.Shares more c d) (hc : c.Live) :
    s.Shares more c.skipSpace d.skipSpace := by
  rw [Cursor.skipSpace, Cursor.skipSpace, h.takeWhile_isSpace_eq hc]
  exact h.advance (List.takeWhile_prefix _).length_le

/-- Past the last statement, what comes next is what comes first in the continuation. -/
theorem rest_skipSpace_eq (h : s.Shares more c d) (hc : ¬ c.Live) :
    d.skipSpace.rest = more.dropWhile isSpace := by
  have hnone : c.rest.dropWhile isSpace = [] := by
    rw [← Cursor.rest_skipSpace, ← List.isEmpty_iff]
    exact Cursor.atEnd_skipSpace_iff.2 hc
  rw [Cursor.rest_skipSpace, h.rest_eq, List.dropWhile_append, hnone, List.isEmpty_nil, if_pos rfl]

/-- The texts ahead agree up to the end of the shared text, where a break follows. -/
theorem overlap (h : s.Shares more c d) (hmore : more.Breaks) : ∃ u v w,
    c.rest = u ++ v ∧ d.rest = u ++ w ∧ Text.Breaks v ∧ Text.Breaks w ∧
      ∀ n ≤ u.length, '"' ∉ u.take n → s.Shares more (c.advance n) (d.advance n) :=
  ⟨c.rest, [], more, (List.append_nil _).symm, h.rest_eq, nofun, hmore, fun _ hn _ => h.advance hn⟩

/-- A quotation that ends in the shared text is the same in both. -/
theorem quotation (h : s.Shares more c d) {t r : Text} (hc : c.rest = '"' :: (t ++ '"' :: r)) :
    (∃ u, d.rest = '"' :: (t ++ '"' :: u)) ∧
      s.Shares more (c.advance (t.length + 2)) (d.advance (t.length + 2)) := by
  refine ⟨⟨r ++ more, ?_⟩, h.advance ?_⟩
  · rw [h.rest_eq, hc]
    simp
  · rw [hc]
    simp

/-- If no semicolon starts the continuation, one comes next in the source or in neither. -/
theorem semicolon (h : s.Shares more c d) (hmore : (more.dropWhile isSpace).head? ≠ some ';') :
    c.skipSpace.peek = ";" ↔ d.skipSpace.peek = ";" := by
  by_cases hc : c.Live
  · have hskip := h.skipSpace hc
    obtain ⟨m, hm, -⟩ := hc.head?_skipSpace
    obtain ⟨r, hr⟩ := List.head?_eq_some_iff.1 hm
    rw [Cursor.peek, Cursor.peek, hskip.rest_eq, hr]
    rfl
  · -- the source is at its end, and the continuation at its first character
    apply iff_of_false
    · intro hpeek
      have hhead := Cursor.head?_of_peek hpeek
      rw [List.isEmpty_iff.1 (Cursor.atEnd_skipSpace_iff.2 hc)] at hhead
      cases hhead
    · intro hpeek
      have hhead := Cursor.head?_of_peek hpeek
      rw [h.rest_skipSpace_eq hc] at hhead
      exact hmore hhead

theorem progress (h : s.Shares more c d) (h' : s.Shares more c' d') :
    c'.remaining < c.remaining ↔ d'.remaining < d.remaining := by
  rw [h.remaining_eq, h'.remaining_eq]
  omega

end Shares

end Source

/-- A source is aligned with its continuation, which starts with space and, past the space, not with
a semicolon. -/
def Alignment.extension (s : Source) (more : Text) (hbreaks : more.Breaks)
    (hmore : (more.dropWhile isSpace).head? ≠ some ';') : Alignment where
  Rel := s.Shares more
  overlap h := h.overlap hbreaks
  skipSpace h hc := h.skipSpace hc
  quotation h hc _ := h.quotation hc
  brace h := h.brace
  semicolon h := h.semicolon hmore
  progress h h' := h.progress h'

namespace Source.Shares

variable {s : Source} {more : Text} {c d : Cursor}

/-- Past the source and its line feed, the continuation starts. -/
theorem advance_end (h : s.Shares ('\n' :: more) c d) :
    d.advance (c.rest.length + 1) =
      (⟨s.name, more⟩ : Source).start.behind (s.text ++ ['\n']) := by
  obtain ⟨n, hn, rfl, rfl⟩ := h
  have hlength : n + ((s.cursor n).rest.length + 1) = s.text.length + 1 := by
    rw [Cursor.length_rest]
    simp only [cursor]
    omega
  rw [advance_cursor _ (by rw [hlength]; simp [extend]), hlength]
  ext1
  · simp [extend, cursor, start, Cursor.behind]
  · simp [cursor, start]

/-- Where only space is left of a source, its continuation starts behind it. -/
theorem skipSpace_eq (h : s.Shares ('\n' :: more) c d) (hc : ¬ c.Live) :
    d.skipSpace =
      ((⟨s.name, more⟩ : Source).start.behind (s.text ++ ['\n'])).skipSpace := by
  have hspace : ∀ ch ∈ c.rest ++ ['\n'], isSpace ch := by
    refine List.forall_mem_append.2 ⟨fun ch hmem => ?_, List.forall_mem_singleton.2 (by decide)⟩
    by_contra hch
    exact hc ⟨ch, hmem, by simpa using hch⟩
  have htake : d.rest.take (c.rest.length + 1) = c.rest ++ ['\n'] := by
    rw [h.rest_eq, List.take_length_add_append]
    rfl
  rw [← h.advance_end, Cursor.skipSpace_advance (by simp [h.rest_eq]) (htake ▸ hspace)]

end Source.Shares

theorem Text.getLast?_line (t : Text) : (t ++ ['\n']).getLast? ≠ some '}' := by
  rw [List.getLast?_concat]
  decide

/-! ### Progress on top of earlier progress -/

namespace Progress

variable {p q : Progress} {c : Cursor}

/-- What one run has led to, and then another that has started with its symbols. -/
def onto (p q : Progress) : Progress where
  symbols := q.symbols
  processors := p.processors ++ q.processors
  statementCount := p.statementCount + q.statementCount

theorem onto_symbols (p : Progress) : p.onto { symbols := p.symbols } = p := by
  rw [onto, List.append_nil]
  rfl

/-- Statements are added on top of a progress. -/
theorem extend_onto (p q : Progress) (s : Statement) :
    (p.onto q).extend s = p.onto (q.extend s) := by
  cases s with
  | rule r => simp [extend, onto, Nat.add_assoc]
  | clause m => rfl
  | declaration d => simp [extend, onto, Nat.add_assoc]

variable [NestingLimit]

/-- A step depends on the symbols alone; what there was before is kept in front. -/
theorem outcome_step_onto (p q : Progress) (c : Cursor) :
    (p.onto q).step.outcome c = (q.step.outcome c).map (Prod.map p.onto id) := by
  rw [outcome_step, outcome_step]
  change (Parser.statement q.symbols.toScope).outcome c >>= _ = _
  cases (Parser.statement q.symbols.toScope).outcome c with
  | error d => rfl
  | ok r =>
    have hrefusal : (p.onto q).refusal? r.1 = q.refusal? r.1 := by cases r.1 <;> rfl
    simp only [ok_bind, add_eq, hrefusal, extend_onto]
    cases q.refusal? r.1 <;> rfl

/-- A run on top of a progress is the run alone, with its result on top. -/
theorem outcome_run_onto (p q : Progress) (c : Cursor) :
    ((p.onto q).run c).outcome = (q.run c).outcome.map p.onto := by
  induction hn : c.remaining using Nat.strongRecOn generalizing q c with
  | ind n ih =>
    rw [outcome_run, outcome_run, outcome_step_onto]
    split
    · rfl
    · cases hstep : q.step.outcome c.skipSpace with
      | error d => rfl
      | ok r => exact ih _ (hn ▸ remaining_lt_of_step hstep) r.1 r.2 rfl

/-- A run does not change whether redeclaration is allowed. -/
theorem redeclaration_of_run (h : (p.run c).outcome = .ok q) :
    q.symbols.redeclaration = p.symbols.redeclaration := by
  obtain ⟨-, hend⟩ := run_preserves
    (I := fun p' _ => p'.symbols.redeclaration = p.symbols.redeclaration)
    (fun _ _ _ _ hsame hstep => (redeclaration_of_step hstep).trans hsame) rfl h
  exact hend

/-- The statements of a source that goes on after a line feed are those of the two parts, one after
the other. -/
theorem outcome_run_extend {s : Source} {more : Text} (h : (p.run s.start).outcome = .ok q)
    (hmore : (more.dropWhile isSpace).head? ≠ some ';') :
    (p.run (s.extend ('\n' :: more)).start).outcome =
      (Relocation.behind (s.text ++ ['\n']) (Text.getLast?_line _)).result q.onto
        (run { symbols := q.symbols } (⟨s.name, more⟩ : Source).start).outcome := by
  have hbreaks : Text.Breaks ('\n' :: more) := Text.stops_cons.2 (by decide)
  have hshares : s.Shares ('\n' :: more) s.start (s.extend ('\n' :: more)).start :=
    ⟨0, Nat.zero_le _, rfl, rfl⟩
  obtain ⟨c', d', hrel, hend, hrun⟩ :=
    run_follows (S := .extension s ('\n' :: more) hbreaks hmore) hshares h
  rw [hrun, outcome_run_congr (hrel.skipSpace_eq hend)]
  -- what the first part has led to is put aside, so that the second one starts with symbols only
  conv_lhs => rw [← q.onto_symbols]
  have hmoved := outcome_run_relocate (Relocation.behind (s.text ++ ['\n']) (Text.getLast?_line _))
    (q.onto { symbols := q.symbols }) (⟨s.name, more⟩ : Source).start
  apply hmoved.trans
  rw [outcome_run_onto]
  cases (run { symbols := q.symbols } (⟨s.name, more⟩ : Source).start).outcome <;> rfl

end Progress

/-! ### Compilation -/

theorem Progress.name_program (p : Progress) (name : Text) : (p.program name).name = name := rfl

namespace Program

/-- The symbol table that a program leaves behind. -/
def symbols (p : Program) (redeclaration : Bool) : Symbols where
  constants := p.constants
  slots := p.slots
  initialState := p.config.initialState
  peripherals := p.config.peripherals
  redeclaration := redeclaration

/-- A program and what further statements have led to, which have started with its symbols. -/
def continued (p : Program) (q : Progress) : Program where
  name := p.name
  config := {
    initialState := q.symbols.initialState
    processors := p.config.processors ++ q.processors
    peripherals := q.symbols.peripherals }
  statementCount := p.statementCount + q.statementCount
  constants := q.symbols.constants
  slots := q.symbols.slots

end Program

namespace Options

/-- Comments are blanked out line by line, so the lines of a program may be blanked apart. -/
theorem bare_append (name a b : Text) :
    bare ⟨name, a ++ '\n' :: b⟩ = (bare ⟨name, a⟩).extend ('\n' :: Comment.blank b) := by
  rw [bare, Comment.blank_append]
  rfl

/-- Behind a program that compiles, further lines go on from what the program has led to. -/
theorem outcome_compile_append [NestingLimit] {o : Options} {name a b : Text} {q : Progress}
    (ha : (o.start.run (bare ⟨name, a⟩).start).outcome = .ok q)
    (hb : ((Comment.blank b).dropWhile isSpace).head? ≠ some ';') :
    (o.compile ⟨name, a ++ '\n' :: b⟩).outcome =
      (Relocation.behind (Comment.blank a ++ ['\n']) (Text.getLast?_line _)).result
        (q.program name).continued
        (Progress.run { symbols := q.symbols } (bare ⟨name, b⟩).start).outcome := by
  rw [outcome_compile, bare_append, Progress.outcome_run_extend ha hb]
  change Except.map _ (Relocation.result _ _
    (Progress.run { symbols := q.symbols } (bare ⟨name, b⟩).start).outcome) = _
  cases (Progress.run { symbols := q.symbols } (bare ⟨name, b⟩).start).outcome <;> rfl

/-- A program gives back the symbols that its run has ended with. -/
theorem symbols_of_run [NestingLimit] {o : Options} {c : Cursor} {q : Progress} (name : Text)
    (h : (o.start.run c).outcome = .ok q) :
    (q.program name).symbols o.redeclaration = q.symbols := by
  have hredeclaration : q.symbols.redeclaration = o.redeclaration := Progress.redeclaration_of_run h
  rw [Program.symbols, ← hredeclaration]
  rfl

/-- Two programs, one after the other on a new line, are compiled like the first alone and then the
second from the symbols that the first has left behind. Diagnostics about the second are moved by
the length of the first and its line feed, and columns stay. -/
theorem compileText_append [NestingLimit] (o : Options) (name a b : Text) (p : Program)
    (ha : (o.compileText name a).outcome = .ok p)
    (hb : ((Comment.blank b).dropWhile isSpace).head? ≠ some ';') :
    (o.compileText name (a ++ '\n' :: b)).outcome =
      (match (Progress.run { symbols := p.symbols o.redeclaration }
          (bare ⟨p.name, b⟩).start).outcome with
        | .ok q => .ok (p.continued q)
        | .error e => .error (e.relocate (Cursor.behind (Comment.blank a ++ ['\n'])))) ∧
      ∀ c : Cursor,
        (c.behind (Comment.blank a ++ ['\n'])).offset = c.offset + (a.length + 1) ∧
        (c.behind (Comment.blank a ++ ['\n'])).location.column = c.location.column ∧
        (c.behind (Comment.blank a ++ ['\n'])).rest = c.rest := by
  constructor
  · rw [compileText] at ha ⊢
    -- the name is chosen without looking at the text
    generalize (if name.isEmpty then o.name else name) = n at ha ⊢
    rw [outcome_compile] at ha
    obtain ⟨q, hrun, rfl⟩ := map_eq_ok.1 ha
    rw [symbols_of_run n hrun, outcome_compile_append hrun hb]
    simp only [Progress.name_program]
    cases (Progress.run { symbols := q.symbols } (bare ⟨n, b⟩).start).outcome <;> rfl
  · intro c
    refine ⟨?_, c.column_behind _, rfl⟩
    rw [Cursor.offset_behind, List.length_append, Comment.length_blank, Nat.add_comm]
    rfl

/-- After a state variable and a comment that the line feed ends, a rule is compiled that sets the
variable, and a second declaration of the variable is refused. -/
theorem compileText_append_to_state :
    let o : Options := { eventCodes := false }
    let a : Text := "let a = 1~u8; // on"
    let rule : Text := "set a to 2~u8 on 3~u16 from 4~u16;"
    let again : Text := "let b = a; let a = b;"
    ∃ p, (o.compileText "" a).outcome = .ok p ∧
      (∃ q, (Progress.run { symbols := p.symbols false } (bare ⟨p.name, rule⟩).start).outcome =
          .ok q ∧ q.processors.length = 1 ∧
        (o.compileText "" (a ++ '\n' :: rule)).outcome = .ok (p.continued q)) ∧
      ∃ d, (Progress.run { symbols := p.symbols false } (bare ⟨p.name, again⟩).start).outcome =
          .error d ∧
        (o.compileText "" (a ++ '\n' :: again)).outcome =
          .error (d.relocate (Cursor.behind (Comment.blank a ++ ['\n']))) := by
  intro o a rule again
  obtain ⟨p, hp, hleft⟩ := exists_of_toOption_map
    (f := fun p : Program => (p.name, p.symbols false))
    (b := (o.name, (Symbols.initial false false).introduce (.state "a" (.int .u8 1) none)))
    (x := (o.compileText "" a).outcome) (by decide +kernel)
  obtain ⟨hname, hsymbols⟩ := Prod.mk.inj hleft
  have hrule := (compileText_append o "" a rule p hp (by decide +kernel)).1
  have hagain := (compileText_append o "" a again p hp (by decide +kernel)).1
  change _ = match (Progress.run { symbols := p.symbols false } _).outcome with
    | .ok _ => _ | .error _ => _ at hrule hagain
  refine ⟨p, hp, ?_, ?_⟩
  · obtain ⟨q, hq, hlength⟩ := exists_of_toOption_map
      (f := fun q : Progress => q.processors.length) (b := 1)
      (x := (Progress.run { symbols := p.symbols false } (bare ⟨p.name, rule⟩).start).outcome)
      (by rw [hsymbols, hname]; decide +kernel)
    rw [hq] at hrule
    exact ⟨q, hq, hlength, hrule⟩
  · cases hd : (Progress.run { symbols := p.symbols false }
        (bare ⟨p.name, again⟩).start).outcome with
    | error d =>
      rw [hd] at hagain
      exact ⟨d, rfl, hagain⟩
    | ok q =>
      have hnone : (Progress.run { symbols := p.symbols false }
          (bare ⟨p.name, again⟩).start).outcome.toOption.isNone := by
        rw [hsymbols, hname]
        decide +kernel
      rw [hd] at hnone
      cases hnone

end Options

end EventRules
