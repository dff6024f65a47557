/-
# Outcomes of parsers

The outcome of a parser at a cursor is what it does apart from the notes it makes: a value and the
cursor after it, or a failure. Each combinator has one equation for its outcome, and from these
equations everything else about parsers is derived.
-/

import EventRules.Grammar.Statement
import EventRules.Proofs.Cursor
import EventRules.Proofs.Text
import Mathlib.Data.List.Forall2

namespace EventRules

/-! ### Results and failures -/

section Results

variable {ε ε' α β : Type}

@[simp]
theorem ok_bind (a : α) (f : α → Except ε β) : Except.ok a >>= f = f a := rfl

@[simp]
theorem error_bind (e : ε) (f : α → Except ε β) : Except.error e >>= f = .error e := rfl

/-- A result of two steps comes from a result of each. -/
theorem bind_eq_ok {x : Except ε α} {f : α → Except ε β} {b : β} :
    x >>= f = .ok b ↔ ∃ a, x = .ok a ∧ f a = .ok b := by
  cases x <;> simp [bind, Except.bind]

/-- A failure of two steps is a failure of the first, or of the second after a result. -/
theorem bind_eq_error {x : Except ε α} {f : α → Except ε β} {e : ε} :
    x >>= f = .error e ↔ x = .error e ∨ ∃ a, x = .ok a ∧ f a = .error e := by
  cases x <;> simp [bind, Except.bind]

theorem mapError_eq_ok {x : Except ε α} {f : ε → ε'} {a : α} :
    x.mapError f = .ok a ↔ x = .ok a := by
  cases x <;> simp [Except.mapError]

/-- A failure comes from a failure. -/
theorem mapError_eq_error {x : Except ε α} {f : ε → ε'} {e : ε'} :
    x.mapError f = .error e ↔ ∃ e', x = .error e' ∧ f e' = e := by
  cases x <;> simp [Except.mapError]

/-- A result comes from a result. -/
theorem map_eq_ok {x : Except ε α} {f : α → β} {b : β} :
    x.map f = .ok b ↔ ∃ a, x = .ok a ∧ f a = b := by
  cases x <;> simp [Except.map]

theorem map_eq_error {x : Except ε α} {f : α → β} {e : ε} : x.map f = .error e ↔ x = .error e := by
  cases x <;> simp [Except.map]

/-- A computation of which a part of the result is known has a result. -/
theorem exists_of_toOption_map {x : Except ε α} {f : α → β} {b : β}
    (h : x.toOption.map f = some b) : ∃ a, x = .ok a ∧ f a = b := by
  cases x with
  | error e => cases h
  | ok a => exact ⟨a, rfl, Option.some.inj h⟩

/-- The diagnostic with which a computation fails. -/
def diagnosis? : Except Failure α → Option Diagnostic
  | .error (.diagnostic d) => some d
  | _ => none

/-- A computation that is known to fail with a diagnostic of which a part is known. -/
theorem exists_of_diagnosis?_map {x : Except Failure α} {f : Diagnostic → β} {b : β}
    (h : (diagnosis? x).map f = some b) : ∃ d : Diagnostic, x = .error d ∧ f d = b := by
  rcases x with (d | fault) | a
  · exact ⟨d, rfl, Option.some.inj h⟩
  · cases h
  · cases h

/-- Results for all members of a list come member by member. -/
theorem mapM_eq_ok {f : α → Except ε β} {as : List α} {bs : List β} :
    as.mapM f = .ok bs ↔ List.Forall₂ (fun a b => f a = .ok b) as bs := by
  induction as generalizing bs with
  | nil =>
    rw [List.mapM_nil, List.forall₂_nil_left_iff]
    exact ⟨fun h => by cases h; rfl, fun h => by cases h; rfl⟩
  | cons a as ih =>
    rw [List.mapM_cons, bind_eq_ok, List.forall₂_cons_left_iff]
    constructor
    · rintro ⟨b, hb, h⟩
      obtain ⟨bs', hbs', heq⟩ := bind_eq_ok.1 h
      cases heq
      exact ⟨b, bs', hb, ih.1 hbs', rfl⟩
    · rintro ⟨b, bs', hb, hbs', rfl⟩
      exact ⟨b, hb, bind_eq_ok.2 ⟨bs', ih.2 hbs', rfl⟩⟩

/-- Every result comes from a member of the list. -/
theorem exists_of_mem_mapM {f : α → Except ε β} {as : List α} {bs : List β} {b : β}
    (h : as.mapM f = .ok bs) (hb : b ∈ bs) : ∃ a ∈ as, f a = .ok b := by
  have hall := mapM_eq_ok.1 h
  induction hall with
  | nil => exact nomatch hb
  | cons hfirst hrest ih =>
    rcases List.mem_cons.1 hb with rfl | hb
    · exact ⟨_, List.mem_cons_self .., hfirst⟩
    · obtain ⟨a, ha, hab⟩ := ih (mapM_eq_ok.2 hrest) hb
      exact ⟨a, List.mem_cons_of_mem _ ha, hab⟩

/-- A failure is the failure of a member of the list. -/
theorem exists_of_mapM_eq_error {f : α → Except ε β} {as : List α} {e : ε}
    (h : as.mapM f = .error e) : ∃ a ∈ as, f a = .error e := by
  induction as with
  | nil => cases h
  | cons a as ih =>
    rw [List.mapM_cons, bind_eq_error] at h
    rcases h with ha | ⟨b, -, h⟩
    · exact ⟨a, List.mem_cons_self .., ha⟩
    · rcases bind_eq_error.1 h with hrest | ⟨bs, -, hpure⟩
      · obtain ⟨a', ha', he⟩ := ih hrest
        exact ⟨a', List.mem_cons_of_mem _ ha', he⟩
      · cases hpure

end Results

/-! ### What the compiler relies on -/

theorem ParameterType.mem_targets (p : ParameterType) : p ∈ targets := by
  cases p <;> decide

/-- There is a conversion for every type of parameter. -/
theorem ParameterType.cast_eq (p : ParameterType) (l : Literal) (location : Option Cursor) :
    p.cast l location = (p.convert l).mapError fun m => .diagnostic (m.diagnostic l p location) :=
  if_pos p.mem_targets

/-- A literal is converted as the type of the parameter says, wherever it stands. -/
theorem ParameterType.cast_eq_ok_iff {p : ParameterType} {l : Literal} {location : Option Cursor}
    {a : p.Argument} : p.cast l location = .ok a ↔ p.convert l = .ok a := by
  rw [cast_eq, mapError_eq_ok]

/-- There is a family under each keyword of a family. -/
theorem Family.ofKeyword?_keyword (family : Family) :
    ofKeyword? family.keyword = some family := by
  cases family <;> rfl

/-- There is a shape of a family under each spelling of one. -/
theorem Family.shape?_spelling {family : Family} {name : ShapeName} (h : name ∈ family.shapes) :
    family.shape? (ItemName.spelling name) = some name := by
  cases family <;> cases name <;> revert h <;> decide

namespace Parser

variable {α β : Type}

/-- What a parser does at a cursor, without its notes. -/
def outcome (p : Parser α) (c : Cursor) : Except Failure (α × Cursor) :=
  (p.run c).outcome

@[simp]
theorem outcome_pure (a : α) (c : Cursor) : (pure a : Parser α).outcome c = .ok (a, c) := rfl

@[simp]
theorem outcome_bind (p : Parser α) (f : α → Parser β) (c : Cursor) :
    (p >>= f).outcome c = p.outcome c >>= fun r => (f r.1).outcome r.2 := by
  rw [outcome, run_bind, Attempt.outcome_bind]
  rfl

@[simp]
theorem outcome_map (f : α → β) (p : Parser α) (c : Cursor) :
    (f <$> p).outcome c = (p.outcome c).map fun r => (f r.1, r.2) := by
  rw [← bind_pure_comp, outcome_bind]
  cases p.outcome c <;> rfl

@[simp]
theorem outcome_fail (d : Diagnostic) (c : Cursor) : (fail d : Parser α).outcome c = .error d := rfl

@[simp]
theorem outcome_ofExcept (x : Except Failure α) (c : Cursor) :
    (ofExcept x).outcome c = x.map (·, c) := rfl

@[simp]
theorem demand_some (f : Fault) (a : α) : demand f (some a) = pure a := rfl

@[simp]
theorem outcome_note (n : Note) (c : Cursor) : (note n).outcome c = .ok ((), c) := rfl

@[simp]
theorem outcome_here (c : Cursor) : here.outcome c = .ok (c, c) := rfl

@[simp]
theorem outcome_take (n : Nat) (c : Cursor) :
    (take n).outcome c = .ok (c.rest.take n, c.advance n) := rfl

@[simp]
theorem outcome_committed (p : Parser α) (c : Cursor) :
    (committed p).outcome c = (p.outcome c).mapError (Failure.map Diagnostic.escalate) := rfl

/-- A choice takes its first alternative, or goes on after a failure that is not fatal. A fault ends
it. -/
theorem outcome_choice_cons (failures : List Diagnostic) (p : Parser α) (ps : List (Parser α))
    (c : Cursor) :
    (choice failures (p :: ps)).outcome c =
      match p.outcome c with
      | .ok r => .ok r
      | .error (.fault f) => .error f
      | .error (.diagnostic d) =>
        if d.isFatal then .error d else (choice (failures ++ [d]) ps).outcome c := by
  rw [outcome, run, choice, outcome]
  dsimp only
  rcases p.run c with ⟨notes, (d | f) | r⟩
  · dsimp only
    split <;> rfl
  · rfl
  · rfl

/-- What a choice reads, one of its alternatives reads. -/
theorem exists_of_choice_eq_ok {failures : List Diagnostic} {ps : List (Parser α)} {c : Cursor}
    {r : α × Cursor} (h : (choice failures ps).outcome c = .ok r) :
    ∃ p ∈ ps, p.outcome c = .ok r := by
  induction ps generalizing failures with
  | nil => cases h
  | cons p ps ih =>
    rw [outcome_choice_cons] at h
    split at h
    · next hp =>
      cases h
      exact ⟨p, List.mem_cons_self .., hp⟩
    · cases h
    · split at h
      · cases h
      · obtain ⟨q, hq, hok⟩ := ih h
        exact ⟨q, List.mem_cons_of_mem _ hq, hok⟩

/-- An option is left out after a failure that is not fatal. -/
theorem outcome_optional (p : Parser α) (c : Cursor) :
    (optional p).outcome c =
      match p.outcome c with
      | .ok r => .ok (some r.1, r.2)
      | .error e => if e.isFatal then .error e else .ok (none, c) := by
  rw [outcome, run, optional, outcome]
  rcases p.run c with ⟨notes, d | ⟨a, c'⟩⟩ <;> rfl

/-- A repetition goes on behind an element that has consumed text. -/
theorem outcome_many0 (p : Parser α) (c : Cursor) :
    (many0 p).outcome c =
      match p.outcome c with
      | .ok r =>
        if r.2.remaining < c.remaining then
          (many0 p).outcome r.2 >>= fun s => .ok (r.1 :: s.1, s.2)
        else .ok ([], c)
      | .error e => if e.isFatal then .error e else .ok ([], c) := by
  rw [outcome, run, many0, outcome]
  rcases p.run c with ⟨notes, d | ⟨a, c'⟩⟩
  · rfl
  · dsimp only
    split
    · rw [Attempt.outcome_after, Attempt.outcome_bind]
      rfl
    · rfl

/-! ### Tokens -/

theorem outcome_run0 (k : CharClass) (c : Cursor) :
    (run0 k).outcome c =
      .ok (c.rest.takeWhile k.contains, c.advance (c.rest.takeWhile k.contains).length) := by
  have htake := List.prefix_iff_eq_take.1 (List.takeWhile_prefix (l := c.rest) k.contains)
  rw [run0, outcome_bind, outcome_here, ok_bind, outcome_take, ← htake]

/-- At least one character of the class has to stand at the cursor. -/
theorem outcome_run1 (k : CharClass) (c : Cursor) :
    (run1 k).outcome c =
      if c.rest.takeWhile k.contains = [] then .error (Diagnostic.expected c k.expectation)
      else .ok (c.rest.takeWhile k.contains, c.advance (c.rest.takeWhile k.contains).length) := by
  have htake := List.prefix_iff_eq_take.1 (List.takeWhile_prefix (l := c.rest) k.contains)
  rw [run1, outcome_bind, outcome_here, ok_bind]
  simp only [List.isEmpty_iff]
  split
  · rfl
  · rw [outcome_take, ← htake]

theorem outcome_skipSpace (c : Cursor) : skipSpace.outcome c = .ok ((), c.skipSpace) := by
  rw [skipSpace, outcome_bind, outcome_run0]
  rfl

theorem outcome_space (c : Cursor) :
    space.outcome c =
      if c.rest.takeWhile isSpace = [] then .error (Diagnostic.expected c .blank)
      else .ok ((), c.skipSpace) := by
  rw [space, outcome_bind, outcome_run1]
  change (if c.rest.takeWhile isSpace = [] then _ else _) >>= _ = _
  split <;> rfl

/-- The text up to a mark is taken only if the mark follows. -/
theorem outcome_takeUntil (mark : Text) (c : Cursor) :
    (takeUntil mark).outcome c =
      match if c.inSource then Text.before? mark c.rest else none with
      | some t => .ok (c.rest.take t.length, c.advance t.length)
      | none =>
        .error (Diagnostic.finding { location := some c, problem := .internal "take_until" }) := by
  rw [takeUntil, outcome_bind, outcome_here, ok_bind]
  dsimp only
  split <;> next h => rw [h]; rfl

/-- What is taken up to a mark does not hold the mark, and the mark stands behind it. -/
theorem takeUntil_eq_ok (mark : Char) {c c' : Cursor} {t : Text}
    (h : (takeUntil [mark]).outcome c = .ok (t, c')) :
    mark ∉ t ∧ (∃ r, c.rest = t ++ mark :: r) ∧ c' = c.advance t.length := by
  rw [outcome_takeUntil] at h
  split at h
  · next u hu =>
    split at hu
    · obtain ⟨hmark, r, hr⟩ := Text.before?_eq_some_iff.1 hu
      rw [List.append_assoc] at hr
      rw [← hr, List.take_left] at h
      cases h
      exact ⟨hmark, ⟨r, hr.symm⟩, rfl⟩
    · cases hu
  · cases h

/-- A name starts with a letter or an underscore and goes on as long as it can. -/
theorem outcome_name (c : Cursor) :
    name.outcome c =
      if (c.ahead? 0).any isNameStart then
        .ok (c.rest.takeWhile isNameChar, c.advance (c.rest.takeWhile isNameChar).length)
      else .error (Diagnostic.expectedBecause c .name (.expected c .letter)) := by
  have htake := List.prefix_iff_eq_take.1 (List.takeWhile_prefix (l := c.rest) isNameChar)
  rw [name, outcome_bind, outcome_here]
  rw [ok_bind]
  split
  · rw [outcome_take, ← htake]
  · rfl

/-- A missing name is passed over. -/
theorem isFatal_of_name {c : Cursor} {e : Failure} (h : name.outcome c = .error e) :
    e.isFatal = false := by
  rw [outcome_name] at h
  split at h <;> cases h
  rfl

theorem outcome_keyword (word : Text) (c : Cursor) :
    (keyword word).outcome c =
      if c.atKeyword word then .ok ((), c.advance word.length)
      else .error (Diagnostic.expected c (.keyword word)) := by
  rw [keyword, outcome_bind, outcome_here]
  rw [ok_bind]
  split <;> rfl

theorem outcome_symbol (mark : Text) (c : Cursor) :
    (symbol mark).outcome c =
      if c.peek = mark then .ok ((), c.advance 1)
      else .error (Diagnostic.expected c (.symbol mark)) := by
  rw [symbol, outcome_bind, outcome_here]
  rw [ok_bind]
  split <;> rfl

theorem symbol_eq_ok {mark : Text} {c c' : Cursor} {x : Unit}
    (h : (symbol mark).outcome c = .ok (x, c')) : c.peek = mark ∧ c' = c.advance 1 := by
  rw [outcome_symbol] at h
  split at h
  · next hpeek =>
    cases h
    exact ⟨hpeek, rfl⟩
  · cases h

/-- A terminator is expected where the construct ends, and not behind the space that follows. -/
theorem outcome_terminator (c : Cursor) :
    terminator.outcome c =
      if c.skipSpace.peek = ";" then .ok ((), c.skipSpace.advance 1)
      else .error (Diagnostic.expected c (.symbol ";")) := by
  rw [outcome, run, terminator]
  split <;> rfl

theorem outcome_nextKeyword (word : Text) (c : Cursor) :
    (nextKeyword word).outcome c = space.outcome c >>= fun r => (keyword word).outcome r.2 := by
  rw [nextKeyword, outcome_bind]

/-- The first of the words that stands at the cursor is chosen. -/
theorem outcome_keywordChoice (words : List Text) (c : Cursor) :
    (keywordChoice words).outcome c =
      match words.find? c.atKeyword with
      | some word => .ok (word, c.advance word.length)
      | none =>
        .error (Diagnostic.oneOf (words.map fun word => .expected c (.keyword word))
          .recoverable) := by
  rw [keywordChoice, outcome_bind, outcome_here]
  rw [ok_bind]
  split
  · next word h =>
    have hat : c.atKeyword word := List.find?_some h
    rw [h, outcome_bind, outcome_keyword, if_pos hat]
    rfl
  · next h =>
    rw [h]
    rfl

/-- Each further element stands behind a separator, with space around. -/
theorem outcome_moreElements (separator : Text) (element : Parser α) (c : Cursor) :
    (moreElements separator element).outcome c =
      if c.skipSpace.peek = separator then
        element.outcome (c.skipSpace.advance 1).skipSpace >>= fun r =>
          if r.2.remaining < c.remaining then
            (moreElements separator element).outcome r.2 >>= fun s => .ok (r.1 :: s.1, s.2)
          else .ok ([r.1], r.2)
      else .ok ([], c) := by
  rw [outcome, run, moreElements]
  split
  · rw [Attempt.outcome_bind]
    congr 1
    funext r
    dsimp only
    split
    · exact Attempt.outcome_bind _ _
    · rfl
  · rfl

/-! ### Parsers that look at the cursor -/

/-- A literal that has no form is expected, with the failures of the forms as the reason. -/
theorem outcome_literalForm (c : Cursor) :
    literalForm.outcome c =
      ((alt literalForms).outcome c).mapError (Failure.map fun d =>
        if d.isFatal then d else .expectedBecause c .literal d) := rfl

/-- A name is looked up among the constants before it is tried as a literal. -/
theorem outcome_literalOrConstant (constants : Table Text Literal) (c : Cursor) :
    (literalOrConstant constants).outcome c =
      match name.outcome c with
      | .error _ => literal.outcome c
      | .ok r =>
        match constants.get? r.1 with
        | some l => .ok (l, r.2)
        | none => literal.outcome c := by
  rw [outcome, run, literalOrConstant, outcome]
  split
  · next h => rw [h]; rfl
  · next word c' h =>
    rw [h]
    dsimp only
    cases constants.get? word <;> rfl

/-- A name without a slot is reported over its whole length. -/
theorem outcome_stateVariable (slots : Table Text Nat) (c : Cursor) :
    (stateVariable slots).outcome c =
      match name.outcome c with
      | .error e => .error (e.map (.expectedBecause c .stateVariable))
      | .ok r =>
        match slots.get? r.1 with
        | some slot => .ok (slot, r.2)
        | none => .error (Diagnostic.expectedIn c r.1.length .stateVariable) := by
  rw [outcome, run, stateVariable, outcome]
  split
  · next h => rw [h]; rfl
  · next word c' h =>
    rw [h]
    dsimp only
    cases slots.get? word <;> rfl

/-- Behind a closing brace, a semicolon may be left out. -/
theorem outcome_clauseTerminator (c : Cursor) :
    clauseTerminator.outcome c =
      if c.previous? = some '}' then
        if c.skipSpace.peek = ";" then .ok ((), c.skipSpace.advance 1) else .ok ((), c)
      else terminator.outcome c := by
  rw [outcome, run, clauseTerminator]
  split
  · split <;> rfl
  · rfl

/-- What no form of a statement reads is reported by the statement as a whole. -/
theorem outcome_statementIn [NestingLimit] (terms : Terms) (forms : List StatementForm)
    (c : Cursor) :
    (statementIn terms forms).outcome c =
      ((alt (forms.map (statementForm terms))).outcome c).mapError
        (Failure.map (statementFailure c)) := rfl

end Parser

end EventRules
