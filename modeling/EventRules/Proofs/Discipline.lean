/-
# The discipline of parser expressions

Every parser expression keeps the cursor in order, however deep it is built, as long as its lists
have separators. Its run ends, with what its parser gives. On success the cursor has moved forward
in the same source or stands still. On failure every finding lies between the start and the end of
the source, and no choice lists another choice. A repetition has read one value for each time it has
moved on.

Two things make runs end. A repetition goes on only when the offset has changed, and since the
cursor never moves back, less of the source remains then. A list goes on only behind a separator.
Where the separator is empty, there is one at the end of the source, and always another one behind.
-/

import EventRules.Proofs.ExpressionRun

namespace EventRules

namespace ParserExpr

/-- The expression is built from tokens and combinators, with lists that have separators. -/
inductive Separated : ParserExpr → Prop
  | token {e : ParserExpr} (h : e.isToken) : Separated e
  | seq {parts : List ParserExpr} (h : ∀ e ∈ parts, Separated e) : Separated (seq parts)
  | alt {alternatives : List ParserExpr} (h : ∀ e ∈ alternatives, Separated e) :
    Separated (alt alternatives)
  | committed {inner : ParserExpr} (h : Separated inner) : Separated (committed inner)
  | optional {inner : ParserExpr} (h : Separated inner) : Separated (optional inner)
  | many0 {inner : ParserExpr} (h : Separated inner) : Separated (many0 inner)
  | many1 {inner : ParserExpr} (h : Separated inner) : Separated (many1 inner)
  | list {marks : Parser.ListMarks} {element : ParserExpr} (hmarks : marks.separator ≠ [])
    (h : Separated element) : Separated (list marks element)

/-! ### Runs end -/

/-- From the stage at the cursor, there is a run that ends with the answer. -/
def Stage.ComesTo (s : Stage) (c : Cursor) (x : Answer) : Prop :=
  ∃ l, Runs s c l x

/-- At every cursor, the expression has a run that ends with what its parser gives. -/
def ComesToOutcome (e : ParserExpr) : Prop :=
  ∀ c, e.start.ComesTo c (e.parser.outcome c)

variable {s s' : Stage} {c c' d : Cursor} {e : ParserExpr} {x y : Answer}
  {reply : Answer → Round (Stage × Cursor) Answer}

namespace Stage.ComesTo

theorem ends (hmove : s.move c = .ends x) : s.ComesTo c x :=
  ⟨_, .ends hmove⟩

/-- A run ends after an application whose reply ends it. -/
theorem last (hmove : s.move c = .applies e d reply) (he : e.ComesToOutcome)
    (hreply : reply (e.parser.outcome d) = .ends x) : s.ComesTo c x := by
  obtain ⟨l, hinner⟩ := he d
  exact ⟨_, .last hmove hinner hreply⟩

/-- A run goes on after an application whose reply goes on. -/
theorem more (hmove : s.move c = .applies e d reply) (he : e.ComesToOutcome)
    (hreply : reply (e.parser.outcome d) = .goesOn (s', c')) (hrest : s'.ComesTo c' x) :
    s.ComesTo c x := by
  obtain ⟨l, hinner⟩ := he d
  obtain ⟨l', hrest⟩ := hrest
  exact ⟨_, .more hmove hinner hreply hrest⟩

end Stage.ComesTo

/-- An expression whose runs end only moves forward. -/
theorem ComesToOutcome.leads (he : e.ComesToOutcome) {v : Datum}
    (h : e.parser.outcome c = .ok (v, c')) : c.Leads c' := by
  obtain ⟨l, hrun⟩ := he c
  rw [h] at hrun
  exact hrun.staysBehind (start_staysBehind e c) (.refl c)

/-- The values of a combinator, as one. -/
def listed (x : Except Failure (List Datum × Cursor)) : Answer :=
  x.map fun r => (.list r.1, r.2)

theorem outcome_sequence_cons (e : ParserExpr) (es : List ParserExpr) (c : Cursor) :
    (sequence (e :: es)).outcome c =
      e.parser.outcome c >>= fun r => (sequence es).outcome r.2 >>= fun t =>
        .ok (r.1 :: t.1, t.2) := by
  simp only [sequence, Parser.outcome_bind, Parser.outcome_pure]

/-- Parts are applied in order until one of them fails. -/
theorem parts_comesTo {parts : List ParserExpr} (h : ∀ e ∈ parts, e.ComesToOutcome)
    (read : List Datum) (c : Cursor) :
    (Stage.parts read parts).ComesTo c
      (listed (Parser.extending read ((sequence parts).outcome c))) := by
  induction parts generalizing read c with
  | nil =>
    refine .ends (congrArg (fun as => Move.ends (.ok (.list as, c))) ?_)
    exact (List.append_nil read).symm
  | cons e es ih =>
    obtain ⟨he, hes⟩ := List.forall_mem_cons.1 h
    rw [outcome_sequence_cons]
    cases hfirst : e.parser.outcome c with
    | error d => exact .last rfl he (by rw [hfirst]; rfl)
    | ok r =>
      rw [ok_bind, Parser.extending_cons]
      exact .more rfl he (by rw [hfirst]; rfl) (ih hes (read ++ [r.1]) r.2)

/-- Alternatives are applied in order until one of them does not decline. -/
theorem alternatives_comesTo {alternatives : List ParserExpr}
    (h : ∀ e ∈ alternatives, e.ComesToOutcome) (failures : List Diagnostic) (c : Cursor) :
    (Stage.alternatives failures alternatives).ComesTo c
      ((Parser.choice failures (parsers alternatives)).outcome c) := by
  induction alternatives generalizing failures with
  | nil => exact .ends rfl
  | cons e es ih =>
    obtain ⟨he, hes⟩ := List.forall_mem_cons.1 h
    rw [parsers, Parser.outcome_choice_cons]
    rcases hfirst : e.parser.outcome c with (d | f) | r
    · dsimp only
      split
      · next hfatal => exact .last rfl he (by rw [hfirst]; exact if_pos hfatal)
      · next hfatal => exact .more rfl he (by rw [hfirst]; exact if_neg hfatal) (ih hes _)
    · exact .last rfl he (by rw [hfirst])
    · exact .last rfl he (by rw [hfirst])

/-- A repetition ends, since whenever it goes on, less of the source remains. -/
theorem repetition_comesTo (he : e.ComesToOutcome) (read : List Datum) (c : Cursor) :
    (Stage.repetition read e).ComesTo c
      (listed (Parser.extending read ((Parser.many0 e.parser).outcome c))) := by
  induction hn : c.remaining using Nat.strongRecOn generalizing read c with
  | ind n ih =>
    have hstop : listed (Parser.extending read (.ok ([], c))) = .ok (.list read, c) := by
      simp [listed, Parser.extending, Except.map]
    rw [Parser.outcome_many0]
    cases hfirst : e.parser.outcome c with
    | error d =>
      refine .last rfl he ?_
      rw [hfirst]
      dsimp only
      split
      · rfl
      · rw [hstop]
    | ok r =>
      have hlead := he.leads hfirst
      dsimp only
      by_cases hsame : r.2.offset = c.offset
      · have hstill : r.2 = c := Cursor.ext_offset hlead.source_eq hsame
        rw [hstill, if_neg (Nat.lt_irrefl _), hstop]
        refine .last rfl he ?_
        rw [hfirst]
        exact if_pos hsame
      · have hlt : r.2.remaining < c.remaining := by
          by_contra hle
          exact hsame (congrArg Cursor.offset (hlead.eq_of_remaining_le (Nat.le_of_not_lt hle)))
        rw [if_pos hlt, Parser.extending_cons]
        refine .more rfl he ?_ (ih _ (hn ▸ hlt) (read ++ [r.1]) r.2 rfl)
        rw [hfirst]
        exact if_neg hsame

/-- The elements of a list end, since each but the first stands behind a separator. -/
theorem elements_comesTo (he : e.ComesToOutcome) {marks : Parser.ListMarks}
    (hmarks : marks.separator ≠ []) (read : List Datum) (c : Cursor) :
    (Stage.elements read marks e).ComesTo c
      (Parser.extending read ((Parser.moreElements marks.separator e.parser).outcome c) >>=
        fun r => closing marks r.1 r.2) := by
  induction hn : c.remaining using Nat.strongRecOn generalizing read c with
  | ind n ih =>
    rw [Parser.outcome_moreElements]
    by_cases hpeek : c.skipSpace.peek = marks.separator
    · have hmove : (Stage.elements read marks e).move c =
          .applies e (c.skipSpace.advance 1).skipSpace
            (goOn fun d => .elements (read ++ [d]) marks e) := if_pos hpeek
      rw [if_pos hpeek]
      cases hfirst : e.parser.outcome (c.skipSpace.advance 1).skipSpace with
      | error d => exact .last hmove he (by rw [hfirst]; rfl)
      | ok r =>
        have hlt : r.2.remaining < c.remaining := Nat.lt_of_le_of_lt (he.leads hfirst).remaining_le
          (Cursor.remaining_lt_of_peek (hpeek ▸ hmarks))
        rw [ok_bind, if_pos hlt, Parser.extending_cons]
        exact .more hmove he (by rw [hfirst]; rfl) (ih _ (hn ▸ hlt) (read ++ [r.1]) r.2 rfl)
    · rw [if_neg hpeek]
      have hmove : (Stage.elements read marks e).move c = .ends (closing marks read c) :=
        if_neg hpeek
      refine .ends (hmove.trans (congrArg (fun as => Move.ends (closing marks as c)) ?_))
      exact (List.append_nil read).symm

end ParserExpr

/-- A list is opened, read element by element unless it closes at once, and closed. -/
theorem Parser.outcome_list {α : Type} (marks : ListMarks) (p : Parser α) (c : Cursor) :
    (list marks p).outcome c =
      let inside := (c.advance 1).skipSpace
      let close := fun r : List α × Cursor =>
        ((nextSymbol marks.closing).outcome r.2).map fun t => (r.1, t.2)
      if c.peek = marks.opening then
        if inside.peek = marks.closing then close ([], inside)
        else p.outcome inside >>= fun r =>
          extending [r.1] ((moreElements marks.separator p).outcome r.2) >>= close
      else .error (Diagnostic.expected c (.symbol marks.opening)) := by
  rw [list, outcome_bind, outcome_symbol]
  dsimp only
  split
  · rw [ok_bind, outcome_bind, outcome_skipSpace, ok_bind, outcome_bind, outcome_here, ok_bind]
    dsimp only
    split
    · simp only [outcome_bind, outcome_pure, ok_bind]
      cases (nextSymbol marks.closing).outcome (c.advance 1).skipSpace <;> rfl
    · simp only [outcome_bind, outcome_pure, ok_bind]
      congr 1
      funext r
      cases (moreElements marks.separator p).outcome r.2 with
      | error d => rfl
      | ok t =>
        change (nextSymbol marks.closing).outcome t.2 >>= _ = Except.map _ _
        cases (nextSymbol marks.closing).outcome t.2 <;> rfl
  · rfl

namespace ParserExpr

variable {e : ParserExpr} {c c' : Cursor} {l : List Application}

theorem listed_bind_close (marks : Parser.ListMarks)
    (x : Except Failure (List Datum × Cursor)) :
    listed (x >>= fun r =>
      ((Parser.nextSymbol marks.closing).outcome r.2).map fun t => (r.1, t.2)) =
      x >>= fun r => closing marks r.1 r.2 := by
  cases x with
  | error d => rfl
  | ok r =>
    rw [ok_bind, ok_bind, closing]
    cases (Parser.nextSymbol marks.closing).outcome r.2 <;> rfl

/-- An option applies its expression once. -/
theorem option_comesTo (he : e.ComesToOutcome) (c : Cursor) :
    (Stage.option e).ComesTo c ((optional e).parser.outcome c) := by
  refine .last rfl he ?_
  rw [parser, Parser.outcome_bind, Parser.outcome_optional]
  cases e.parser.outcome c with
  | ok r => rfl
  | error d =>
    dsimp only
    split <;> rfl

/-- A repetition of at least one applies its expression once, and then goes on as a repetition. -/
theorem first_comesTo (he : e.ComesToOutcome) (c : Cursor) :
    (Stage.first e).ComesTo c ((many1 e).parser.outcome c) := by
  rw [parser, Parser.outcome_map, Parser.many1]
  simp only [Parser.outcome_bind, Parser.outcome_pure]
  cases hfirst : e.parser.outcome c with
  | error d => exact .last rfl he (by rw [hfirst]; rfl)
  | ok r =>
    refine .more rfl he (by rw [hfirst]; rfl) ?_
    have hrun := repetition_comesTo he [r.1] r.2
    rw [ok_bind]
    cases hrest : (Parser.many0 e.parser).outcome r.2 with
    | error d => rwa [hrest] at hrun
    | ok t => rwa [hrest] at hrun

/-- A list is opened, read element by element unless it closes at once, and closed. -/
theorem list_comesTo (he : e.ComesToOutcome) {marks : Parser.ListMarks}
    (hmarks : marks.separator ≠ []) (c : Cursor) :
    (Stage.list marks e).ComesTo c ((list marks e).parser.outcome c) := by
  rw [parser, Parser.outcome_map, Parser.outcome_list]
  dsimp only
  by_cases hopen : c.peek = marks.opening
  · rw [if_pos hopen]
    by_cases hclose : (c.advance 1).skipSpace.peek = marks.closing
    · rw [if_pos hclose]
      refine .ends (((if_pos hopen).trans (if_pos hclose)).trans (congrArg Move.ends ?_))
      exact (listed_bind_close marks (.ok ([], (c.advance 1).skipSpace))).symm
    · have hmove : (Stage.list marks e).move c =
          .applies e (c.advance 1).skipSpace (goOn fun d => .elements [d] marks e) :=
        (if_pos hopen).trans (if_neg hclose)
      rw [if_neg hclose]
      cases hfirst : e.parser.outcome (c.advance 1).skipSpace with
      | error d => exact .last hmove he (by rw [hfirst]; rfl)
      | ok r =>
        have hrun := elements_comesTo he hmarks [r.1] r.2
        rw [← listed_bind_close] at hrun
        exact .more hmove he (by rw [hfirst]; rfl) hrun
  · rw [if_neg hopen]
    exact .ends (if_neg hopen)

theorem start_eq_token (he : e.isToken) : e.start = .token e := by
  cases e with
  | seq | alt | committed | optional | many0 | many1 | list => cases he
  | _ => rfl

/-- The run of an expression whose lists have separators ends with what its parser gives. -/
theorem Separated.comesToOutcome (he : e.Separated) : e.ComesToOutcome := by
  induction he with
  | token h => exact fun c => .ends (congrArg (fun s => Stage.move s c) (start_eq_token h))
  | seq _ ih =>
    intro c
    have hrun := parts_comesTo ih [] c
    rw [Parser.extending_nil] at hrun
    rwa [parser, Parser.outcome_map]
  | alt _ ih => exact alternatives_comesTo ih []
  | committed _ ih => exact fun c => .last rfl ih rfl
  | optional _ ih => exact option_comesTo ih
  | many0 _ ih =>
    intro c
    have hrun := repetition_comesTo ih [] c
    rw [Parser.extending_nil] at hrun
    rwa [parser, Parser.outcome_map]
  | many1 _ ih => exact first_comesTo ih
  | list hmarks _ ih => exact list_comesTo ih hmarks

/-! ### Repetitions -/

/-- The application has moved the cursor forward. -/
def Application.consumes (a : Application) : Bool :=
  a.consumed?.isSome

/-- A repetition has read what its applications have consumed. -/
theorem Runs.eq_consumed {read : List Datum} {v : Datum}
    (h : Runs (.repetition read e) c l (.ok (v, c'))) (hc : c.inSource) :
    v = .list (read ++ l.filterMap Application.consumed?) := by
  induction l generalizing read c with
  | nil =>
    obtain ⟨_, _, _, -, hl, -⟩ := h.of_applies rfl
    cases hl
  | cons a after ih =>
    obtain ⟨_, y, _, hinner, hl, hnext⟩ := h.of_applies rfl
    obtain ⟨rfl, rfl⟩ := List.cons.inj hl
    cases y with
    | error d =>
      rcases hnext with ⟨hreply, rfl⟩ | ⟨_, _, hreply, -⟩
      · have hanswer := Round.ends.inj hreply
        split at hanswer
        · cases hanswer
        · cases hanswer
          exact congrArg Datum.list (List.append_nil read).symm
      · cases hreply
    | ok r =>
      have hlead : c.Leads r.2 := hinner.staysBehind (start_staysBehind e c) (.refl c)
      dsimp only at hnext
      by_cases hsame : r.2.offset = c.offset
      · rw [if_pos hsame] at hnext
        have hnone : Application.consumed? ⟨c, .ok r⟩ = none :=
          if_neg (Nat.not_lt_of_ge (Nat.le_of_eq hsame))
        rcases hnext with ⟨hreply, rfl⟩ | ⟨_, _, hreply, -⟩
        · cases hreply
          rw [List.filterMap_cons_none hnone, List.filterMap_nil, List.append_nil]
        · cases hreply
      · rw [if_neg hsame] at hnext
        have hsome : Application.consumed? ⟨c, .ok r⟩ = some r.1 :=
          if_pos (Nat.lt_of_le_of_ne (hlead.offset_le hc) (Ne.symm hsame))
        rcases hnext with ⟨hreply, -⟩ | ⟨_, _, hreply, hrest⟩
        · cases hreply
        · cases hreply
          rw [ih hrest (hlead.inSource hc), List.filterMap_cons_some hsome, List.append_assoc]
          rfl

/-! ### The discipline -/

/-- An expression whose lists have separators, however deep it is built, keeps the cursor in order
at every place in a source. It runs in one way, which ends with what its parser gives. On success
the cursor is in the same source, between the start and the end. On failure every finding lies
there, and no choice lists another choice. A repetition of the expression has as many values as it
has applications that consume. -/
theorem disciplined (e : ParserExpr) (he : e.Separated) (c : Cursor)
    (hc : c.offset ≤ c.source.text.length) :
    (∃ l, ∀ l' x, Runs e.start c l' x ↔ l' = l ∧ x = e.parser.outcome c) ∧
    (∀ v c', e.parser.outcome c = .ok (v, c') →
      c'.source = c.source ∧ c.offset ≤ c'.offset ∧ c'.offset ≤ c.source.text.length) ∧
    (∀ e', e.parser.outcome c = .error e' → ∃ d : Diagnostic, e' = d ∧
      (∀ f ∈ d.findings, f.LiesIn c.source c.offset) ∧
        ∀ ds s, .oneOf ds s ∈ d.nodes → ∀ a ∈ ds, a.isChoice = false) ∧
    ∀ v c', (many0 e).parser.outcome c = .ok (v, c') →
      ∃ l as, Runs (many0 e).start c l (.ok (v, c')) ∧ v = .list as ∧
        as = l.filterMap Application.consumed? ∧ as.length = l.countP Application.consumes := by
  rw [← Cursor.inSource_iff] at hc
  obtain ⟨l, hrun⟩ := he.comesToOutcome c
  have hstays := hrun.staysBehind (start_staysBehind e c) (.refl c)
  refine ⟨⟨l, fun l' x => ⟨hrun.unique, ?_⟩⟩, fun v c' hok => ?_, fun e' he' => ?_,
    fun v c' hok => ?_⟩
  · rintro ⟨rfl, rfl⟩
    exact hrun
  · rw [hok] at hstays
    have hlead : c.Leads c' := hstays
    refine ⟨hlead.source_eq, hlead.offset_le hc, ?_⟩
    rw [← hlead.source_eq]
    exact Cursor.inSource_iff.1 (hlead.inSource hc)
  · rw [he'] at hstays
    cases e' with
    | fault => cases hstays
    | diagnostic d =>
      have hflat : d.Flat (Finding.PointsFrom c) := hstays
      exact ⟨d, rfl, fun f hf => (hflat.findings f hf).liesIn hc, hflat.choices⟩
  · obtain ⟨l, hrepeat⟩ := he.many0.comesToOutcome c
    rw [hok] at hrepeat
    have hread := hrepeat.eq_consumed hc
    exact ⟨l, _, hrepeat, hread, rfl, List.length_filterMap_eq_countP⟩

/-- Two words are read one after the other, and then nothing more: a bracketed number or a run of
letters was expected there. -/
theorem disciplined_words :
    let e : ParserExpr := .alt [.list {} (.run1 .digit), .run1 .letter]
    let source : Source := ⟨"", "ab(1)!"⟩
    e.Separated ∧ source.start.offset ≤ source.text.length ∧
      (∃ l as c', Runs (many0 e).start source.start l (.ok (.list as, c')) ∧ c'.offset = 5 ∧
        as.length = 2 ∧ l.countP Application.consumes = 2) ∧
      ∃ d : Diagnostic, e.parser.outcome (source.cursor 5) = .error d ∧ d.findings.length = 2 ∧
        ∀ f ∈ d.findings, f.LiesIn source 5 := by
  intro e source
  have he : e.Separated := by
    refine .alt (List.forall_mem_cons.2 ⟨.list (by decide) (.token rfl), ?_⟩)
    exact List.forall_mem_singleton.2 (.token rfl)
  have hstart : source.start.offset ≤ source.text.length := Nat.zero_le _
  refine ⟨he, hstart, ?_, ?_⟩
  · obtain ⟨⟨v, c'⟩, hok, hshape⟩ := exists_of_toOption_map
      (f := fun r : Datum × Cursor =>
        (match r.1 with | .list as => as.length | _ => 0, r.2.offset)) (b := (2, 5))
      (x := (many0 e).parser.outcome source.start) (by decide +kernel)
    obtain ⟨-, -, -, hrepeat⟩ := disciplined e he source.start hstart
    obtain ⟨l, as, hrun, rfl, -, hcount⟩ := hrepeat v c' hok
    obtain ⟨hlength, hoffset⟩ := Prod.mk.inj hshape
    exact ⟨l, as, c', hrun, hoffset, hlength, hcount.symm.trans hlength⟩
  · obtain ⟨d, hd, hfindings⟩ := exists_of_diagnosis?_map (f := fun d => d.findings.length)
      (b := 2) (x := e.parser.outcome (source.cursor 5)) (by decide +kernel)
    obtain ⟨-, -, hfail, -⟩ := disciplined e he (source.cursor 5) (by decide +kernel)
    obtain ⟨_, heq, hlies, -⟩ := hfail _ hd
    cases heq
    exact ⟨_, hd, hfindings, hlies⟩

/-! ### Lists without separators -/

/-- Where the separator is empty, the run of a list does not end at the end of the source, unless
an element fails or moves on there. -/
theorem not_comesTo_elements {marks : Parser.ListMarks} {element : ParserExpr} {v : Datum}
    (hmarks : marks.separator = []) (hc : c.inSource) (hend : c.rest = [])
    (helement : element.start.ComesTo c (.ok (v, c))) (read : List Datum) (x : Answer) :
    ¬ (Stage.elements read marks element).ComesTo c x := by
  have hskip : c.skipSpace = c := Cursor.skipSpace_eq_self hc (by rw [hend, List.dropWhile_nil])
  have hadvance : c.advance 1 = c := by
    refine (c.leads_advance 1).eq_of_remaining_le ?_
    rw [Cursor.remaining_eq hc, hend]
    exact Nat.zero_le _
  have hmove (read : List Datum) : (Stage.elements read marks element).move c =
      .applies element c (goOn fun d => .elements (read ++ [d]) marks element) := by
    rw [Stage.move, hskip, hadvance, hskip, if_pos]
    rw [Cursor.peek, hend, hmarks]
    rfl
  obtain ⟨within, helement⟩ := helement
  rintro ⟨l, hrun⟩
  induction l generalizing read with
  | nil =>
    obtain ⟨_, _, _, -, hl, -⟩ := hrun.of_applies (hmove read)
    cases hl
  | cons a after ih =>
    obtain ⟨_, y, _, hinner, hl, hnext⟩ := hrun.of_applies (hmove read)
    obtain ⟨-, rfl⟩ := List.cons.inj hl
    obtain ⟨-, rfl⟩ := helement.unique hinner
    rcases hnext with ⟨hreply, -⟩ | ⟨s', d, hreply, hrest⟩
    · cases hreply
    · cases hreply
      exact ih (read ++ [v]) hrest

/-- The run of a list with an empty separator does not end if the list is opened at the end of the
source and its elements may be empty. -/
theorem not_comesTo_list {marks : Parser.ListMarks} {element : ParserExpr} {v : Datum}
    (hmarks : marks.separator = []) (hclosing : marks.closing ≠ [])
    (hopen : c.peek = marks.opening) (hend : (c.advance 1).skipSpace.rest = [])
    (helement : element.start.ComesTo (c.advance 1).skipSpace (.ok (v, (c.advance 1).skipSpace)))
    (x : Answer) : ¬ (list marks element).start.ComesTo c x := by
  have hunclosed : (c.advance 1).skipSpace.peek ≠ marks.closing := by
    rw [Cursor.peek, hend]
    exact hclosing.symm
  rintro ⟨l, hrun⟩
  obtain ⟨_, y, after, hinner, -, hnext⟩ :=
    hrun.of_applies ((if_pos hopen).trans (if_neg hunclosed))
  obtain ⟨within, hread⟩ := helement
  obtain ⟨-, rfl⟩ := hread.unique hinner
  rcases hnext with ⟨hreply, -⟩ | ⟨_, _, hreply, hrest⟩
  · cases hreply
  · cases hreply
    exact not_comesTo_elements hmarks (Cursor.inSource_skipSpace _) hend ⟨within, hread⟩ [v] x
      ⟨after, hrest⟩

end ParserExpr

end EventRules
