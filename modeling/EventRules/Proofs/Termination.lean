/-
# Loops end

Three loops read an unbounded number of things: the clauses of a block, the arguments in a list and
the statements of a program. Here each of them is a loop without a bound, which is only told what
one round does. On every input, malformed or not, the loop ends after finitely many rounds, and it
ends with what the parser or the run gives.

The reason is the same for all three: a round that goes on has moved the cursor towards the end of
the source. Statements in particular move it by at least one character each, so a program has no
more statements than characters.
-/

import EventRules.Proofs.Crossing
import EventRules.Proofs.Run

namespace EventRules

/-! ### Loops -/

/-- A round of a loop goes on in another state, or ends the loop with a result. -/
inductive Round (σ ρ : Type)
  | goesOn (state : σ)
  | ends (result : ρ)

/-- The loop that starts in the state ends with the result after finitely many rounds. -/
inductive Round.Ends {σ ρ : Type} (round : σ → Round σ ρ) : σ → ρ → Prop
  | last {s : σ} {r : ρ} (h : round s = .ends r) : Ends round s r
  | more {s t : σ} {r : ρ} (h : round s = .goesOn t) (hrest : Ends round t r) : Ends round s r

/-- A loop ends with a result that no round changes, provided that the rounds decrease a measure. -/
theorem Round.ends_of_decreasing {σ ρ : Type} {round : σ → Round σ ρ} (result : σ → ρ)
    (measure : σ → Nat)
    (hround : ∀ s, round s = .ends (result s) ∨
      ∃ t, round s = .goesOn t ∧ result t = result s ∧ measure t < measure s) (s : σ) :
    Ends round s (result s) := by
  induction hn : measure s using Nat.strongRecOn generalizing s with
  | ind n ih =>
    rcases hround s with hlast | ⟨t, hmore, hsame, hlt⟩
    · exact .last hlast
    · exact .more hmore (hsame ▸ ih _ (hn ▸ hlt) t rfl)

namespace Parser

variable {α : Type} {p : Parser α} {V : α → Prop}

/-- A round of a repetition reads one more value. The repetition is over where its parser fails
recoverably or stands still. -/
def repetitionRound (p : Parser α) :
    List α × Cursor → Round (List α × Cursor) (Except Failure (List α × Cursor))
  | (as, c) =>
    match p.outcome c with
    | .ok (a, c') => if c'.offset = c.offset then .ends (.ok (as, c)) else .goesOn (as ++ [a], c')
    | .error e => .ends (if e.isFatal then .error e else .ok (as, c))

/-- A round of a list reads one more element after a separator. -/
def elementRound (separator : Text) (element : Parser α) :
    List α × Cursor → Round (List α × Cursor) (Except Failure (List α × Cursor))
  | (as, c) =>
    if c.skipSpace.peek = separator then
      match element.outcome (c.skipSpace.advance 1).skipSpace with
      | .ok (a, c') => .goesOn (as ++ [a], c')
      | .error e => .ends (.error e)
    else .ends (.ok (as, c))

/-- The values read so far, and then those that are still to come. -/
def extending (as : List α) (x : Except Failure (List α × Cursor)) :
    Except Failure (List α × Cursor) :=
  x.map fun r => (as ++ r.1, r.2)

theorem extending_cons (as : List α) (a : α) (x : Except Failure (List α × Cursor)) :
    extending as (x >>= fun r => .ok (a :: r.1, r.2)) = extending (as ++ [a]) x := by
  cases x with
  | error e => rfl
  | ok r =>
    change Except.ok (as ++ a :: r.1, r.2) = .ok (as ++ [a] ++ r.1, r.2)
    rw [List.append_assoc]
    rfl

theorem extending_nil (x : Except Failure (List α × Cursor)) : extending [] x = x := by
  cases x <;> rfl

/-- The repetition of a parser that consumes text ends. -/
theorem many0_ends (hp : p.Takes V) (c : Cursor) :
    Round.Ends (repetitionRound p) ([], c) ((many0 p).outcome c) := by
  suffices h : ∀ s : List α × Cursor,
      Round.Ends (repetitionRound p) s (extending s.1 ((many0 p).outcome s.2)) by
    have hall := h ([], c)
    rwa [extending_nil] at hall
  refine Round.ends_of_decreasing _ (·.2.remaining) ?_
  rintro ⟨as, c⟩
  rw [repetitionRound, outcome_many0]
  cases hok : p.outcome c with
  | error e =>
    left
    dsimp only
    cases e.isFatal with
    | true => rfl
    | false => simp [extending, Except.map]
  | ok r =>
    have hlt := hp.remaining_lt hok
    have hmoved : ¬ r.2.offset = c.offset := Nat.ne_of_gt (hp.offset_lt hok)
    refine .inr ⟨_, if_neg hmoved, ?_, hlt⟩
    dsimp only
    rw [if_pos hlt, extending_cons]

/-- The loop over the elements of a list ends, since each round passes a separator. -/
theorem moreElements_ends (hp : p.Forward) {separator : Text} (hseparator : separator ≠ [])
    (c : Cursor) :
    Round.Ends (elementRound separator p) ([], c) ((moreElements separator p).outcome c) := by
  suffices h : ∀ s : List α × Cursor, Round.Ends (elementRound separator p) s
      (extending s.1 ((moreElements separator p).outcome s.2)) by
    have hall := h ([], c)
    rwa [extending_nil] at hall
  refine Round.ends_of_decreasing _ (·.2.remaining) ?_
  rintro ⟨as, c⟩
  rw [elementRound, outcome_moreElements]
  by_cases hpeek : c.skipSpace.peek = separator
  · rw [if_pos hpeek, if_pos hpeek]
    cases hok : p.outcome (c.skipSpace.advance 1).skipSpace with
    | error e => exact .inl rfl
    | ok r =>
      have hlt : r.2.remaining < c.remaining := Nat.lt_of_le_of_lt (hp hok).1.remaining_le
        (Cursor.remaining_lt_of_peek (hpeek ▸ hseparator))
      refine .inr ⟨_, rfl, ?_, hlt⟩
      dsimp only
      rw [ok_bind, if_pos hlt, extending_cons]
  · left
    rw [if_neg hpeek, if_neg hpeek]
    simp [extending, Except.map]

end Parser

namespace Progress

variable [NestingLimit]

/-- A round of a run takes in one more statement, unless the source ends here. -/
def round : Progress × Cursor → Round (Progress × Cursor) (Except Failure Progress)
  | (p, c) =>
    if c.skipSpace.atEnd then .ends (.ok p)
    else
      match p.step.outcome c.skipSpace with
      | .ok s => .goesOn s
      | .error e => .ends (.error e)

/-- The loop over the statements of a program ends. -/
theorem run_ends (p : Progress) (c : Cursor) : Round.Ends round (p, c) (p.run c).outcome := by
  refine Round.ends_of_decreasing (fun s => (s.1.run s.2).outcome) (·.2.remaining) ?_ (p, c)
  rintro ⟨p, c⟩
  rw [round, outcome_run]
  by_cases hend : c.skipSpace.atEnd
  · exact .inl (by rw [if_pos hend, if_pos hend])
  · rw [if_neg hend, if_neg hend]
    cases hstep : p.step.outcome c.skipSpace with
    | error e => exact .inl rfl
    | ok s => exact .inr ⟨s, rfl, rfl, remaining_lt_of_step hstep⟩

/-- A run takes in no more statements than there are characters ahead. -/
theorem statementCount_le {p p' : Progress} {c : Cursor} (h : (p.run c).outcome = .ok p') :
    p'.statementCount ≤ p.statementCount + c.remaining := by
  let I (q : Progress) (d : Cursor) : Prop :=
    q.statementCount + d.remaining ≤ p.statementCount + c.remaining
  have hstep : ∀ ⦃q d q' d'⦄, I q d → q.step.outcome d.skipSpace = .ok (q', d') → I q' d' := by
    intro q d q' d' hI hok
    have hlt := remaining_lt_of_step hok
    have hcount : q'.statementCount = q.statementCount + 1 := by
      obtain ⟨s, -, hnew, rfl⟩ := step_eq_ok_iff.1 hok
      cases s with
      | declaration d => rfl
      | rule r => rfl
      | clause m => cases hnew
    dsimp only [I] at hI ⊢
    omega
  obtain ⟨c', hcount⟩ := run_preserves hstep (Nat.le_refl _) h
  exact Nat.le_trans (Nat.le_add_right _ _) hcount

end Progress

open EventRules.Parser in
/-- Compilation ends. Every form of statement that succeeds within its source moves on in it. The
loops over the clauses of a block, over arguments and over statements end on every input, each with
what the library gives for it, and no program has more statements than characters. -/
theorem Options.compilation_ends [NestingLimit] :
    (∀ (scope : Scope) (form : StatementForm) (c c' : Cursor) (s : Statement), c.inSource →
      (statementForm scope form).outcome c = .ok (s, c') →
        c'.source = c.source ∧ c.offset < c'.offset ∧ c'.offset ≤ c.source.text.length) ∧
    (∀ (scope : Scope) (c : Cursor),
      Round.Ends (repetitionRound (blockClause (matchClause scope))) ([], c)
        ((many0 (blockClause (matchClause scope))).outcome c) ∧
      Round.Ends (repetitionRound (blockClause (fireClause scope))) ([], c)
        ((many0 (blockClause (fireClause scope))).outcome c) ∧
      Round.Ends (elementRound "," (writtenArgument (literalOrConstant scope.constants))) ([], c)
        ((moreElements "," (writtenArgument (literalOrConstant scope.constants))).outcome c)) ∧
    (∀ (p : Progress) (c : Cursor), Round.Ends Progress.round (p, c) (p.run c).outcome) ∧
    ∀ (o : Options) (name text : Text) (p : Program),
      (o.compileText name text).outcome = .ok p → p.statementCount ≤ text.length := by
  have hsize : ∀ w : Width, w.size ≤ w.size := fun _ => Nat.le_refl _
  refine ⟨fun scope form c c' s hc hok => ?_, fun scope c => ⟨?_, ?_, ?_⟩, Progress.run_ends,
    fun o name text p hok => ?_⟩
  · have htakes := statementForm_takes hsize scope form
    have hleads := (htakes.yields hok).1
    refine ⟨hleads.source_eq, htakes.offset_lt hok, ?_⟩
    rw [← hleads.source_eq]
    exact Cursor.inSource_iff.1 (hleads.inSource hc)
  · exact many0_ends (blockClause_takes (matchClause_takes hsize scope.constants)) c
  · exact many0_ends (blockClause_takes (fireClause_takes hsize scope.constants)) c
  · refine moreElements_ends ?_ (by decide) c
    exact .bind .here fun _ _ => .bind (literalOrConstant_yields hsize _) fun _ _ => .pure trivial
  · rw [outcome_compileText] at hok
    obtain ⟨q, hrun, rfl⟩ := map_eq_ok.1 hok
    have hcount := Progress.statementCount_le hrun
    rwa [Source.start, Source.remaining_cursor _ (Nat.zero_le _), Nat.sub_zero,
      show (o.source name text).text.length = text.length from Comment.length_blank text,
      show o.start.statementCount = 0 from rfl, Nat.zero_add] at hcount

/-- The statement that declares a truth value moves on to its end, and a program of it has one
statement. -/
theorem Options.compilation_ends_switch :
    let o : Options := { eventCodes := false }
    let text : Text := "const on = true;"
    (∃ s c', (Parser.statementForm o.start.symbols.toScope .const).outcome
        (Source.mk "" text).start = .ok (s, c') ∧ 0 < c'.offset ∧ c'.offset ≤ text.length) ∧
      ∃ p, (o.compileText "" text).outcome = .ok p ∧ p.statementCount = 1 ∧
        p.statementCount ≤ text.length := by
  intro o text
  obtain ⟨⟨s, c'⟩, hs, -⟩ := exists_of_toOption_map (f := fun _ => ()) (b := ())
    (x := (Parser.statementForm o.start.symbols.toScope .const).outcome (Source.mk "" text).start)
    (by decide +kernel)
  obtain ⟨p, hp, hcount⟩ := exists_of_toOption_map (f := Program.statementCount) (b := 1)
    (x := (o.compileText "" text).outcome) (by decide +kernel)
  obtain ⟨hforms, -, -, hprograms⟩ := compilation_ends
  exact ⟨⟨s, c', hs, (hforms _ _ _ _ _ (Cursor.inSource_start _) hs).2⟩, p, hp, hcount,
    hprograms o "" text p hp⟩

end EventRules
