/-
# Relocated sources

A relocation moves every position of a source to a position in another source with the same text
ahead. Whatever a parser does at a position, it does at the relocated one: it reads the same values,
ends at the relocated position, and fails with the same diagnostic, its findings relocated.

Only the text ahead counts, and whether a closing brace is just behind. So a source may be put
behind any text that does not end with such a brace.
-/

import EventRules.Proofs.Outcome

namespace EventRules

/-- A map of positions that keeps what a parser can tell of a position. -/
structure Relocation where
  move : Cursor → Cursor
  rest (c : Cursor) : (move c).rest = c.rest
  inSource (c : Cursor) : (move c).inSource = c.inSource
  advance (c : Cursor) (n : Nat) : (move c).advance n = move (c.advance n)
  remaining (c : Cursor) : (move c).remaining = c.remaining
  /-- A closing brace is just behind both positions or behind none. -/
  brace (c : Cursor) : (move c).previous? = some '}' ↔ c.previous? = some '}'
  /-- Distances are kept. -/
  distance (c d : Cursor) : (move d).offset - (move c).offset = d.offset - c.offset

attribute [simp] Relocation.rest Relocation.inSource Relocation.advance Relocation.remaining

/-! ### Positions behind a text -/

namespace Cursor

/-- The position in the source that has `head` in front of its text. -/
def behind (head : Text) (c : Cursor) : Cursor where
  source := { c.source with text := head ++ c.source.text }
  offset := head.length + c.offset
  rest := c.rest
  rest_eq := by rw [c.rest_eq, List.drop_length_add_append]

variable (head : Text) (c : Cursor)

@[simp]
theorem offset_behind : (c.behind head).offset = head.length + c.offset := rfl

@[simp]
theorem text_behind : (c.behind head).source.text = head ++ c.source.text := rfl

@[simp]
theorem rest_behind : (c.behind head).rest = c.rest := rfl

theorem inSource_behind : (c.behind head).inSource = c.inSource := by
  rw [Bool.eq_iff_iff, inSource_iff, inSource_iff]
  simp

/-- Advancing and putting a text in front may be exchanged. -/
theorem advance_behind (n : Nat) : (c.behind head).advance n = (c.advance n).behind head := by
  ext1
  · rfl
  · simp only [offset_advance, offset_behind, text_behind, List.length_append]
    omega

theorem remaining_behind : (c.behind head).remaining = c.remaining := by
  simp only [remaining, rest_behind, offset_behind, text_behind, List.length_append]
  omega

/-- The text in front does not end with a brace, so at its end no brace is just behind. -/
theorem previous?_behind (h : head.getLast? ≠ some '}') :
    (c.behind head).previous? = some '}' ↔ c.previous? = some '}' := by
  rw [previous?, previous?, offset_behind, text_behind]
  by_cases hoffset : c.offset = 0
  · rw [if_pos hoffset, hoffset, Nat.add_zero]
    split
    · rfl
    · rw [List.getElem?_append_left (by omega), ← List.getLast?_eq_getElem?]
      simp [h]
  · rw [if_neg hoffset, if_neg (by omega), List.getElem?_append_right (by omega)]
    congr! 2
    omega

/-- The text behind a position, back to the end of a line. -/
theorem takeWhile_reverse_append (lines t : Text) :
    (lines ++ '\n' :: t).reverse.takeWhile (· ≠ '\n') = t.reverse.takeWhile (· ≠ '\n') := by
  rw [List.reverse_append, List.reverse_cons, List.append_assoc, List.takeWhile_append]
  split
  · next hall =>
    simpa using ((List.takeWhile_prefix _).eq_of_length hall).symm
  · rfl

/-- Behind whole lines, a position keeps its column. -/
theorem column_behind (lines : Text) :
    (c.behind (lines ++ ['\n'])).location.column = c.location.column := by
  have hbehind : (c.behind (lines ++ ['\n'])).source.text.take
      (c.behind (lines ++ ['\n'])).offset = lines ++ '\n' :: c.source.text.take c.offset := by
    rw [text_behind, offset_behind, List.take_length_add_append, List.append_assoc]
    rfl
  rw [location, location, hbehind, takeWhile_reverse_append]
  -- columns are counted by subtraction, which must not be cut off at zero
  have hle : ((c.source.text.take c.offset).reverse.takeWhile (· ≠ '\n')).length ≤
      (c.source.text.take c.offset).length := by
    simpa using (List.takeWhile_prefix (l := (c.source.text.take c.offset).reverse) _).length_le
  simp only [List.length_append, List.length_cons, List.length_nil, offset_behind]
  omega

end Cursor

/-- Puts a source behind a text that does not end with a closing brace. -/
def Relocation.behind (head : Text) (h : head.getLast? ≠ some '}') : Relocation where
  move := Cursor.behind head
  rest := Cursor.rest_behind head
  inSource := Cursor.inSource_behind head
  advance := Cursor.advance_behind head
  remaining := Cursor.remaining_behind head
  brace c := c.previous?_behind head h
  distance c d := by
    rw [Cursor.offset_behind, Cursor.offset_behind]
    omega

/-! ### Relocated diagnostics -/

/-- A finding whose position is moved. -/
def Finding.relocate (move : Cursor → Cursor) (f : Finding) : Finding :=
  { f with location := f.location.map move }

namespace Diagnostic

mutual

/-- A diagnostic with the position of every finding moved. -/
def relocate (move : Cursor → Cursor) : Diagnostic → Diagnostic
  | finding f => finding (f.relocate move)
  | because f reason => because (f.relocate move) (relocate move reason)
  | oneOf alternatives severity => oneOf (relocateAll move alternatives) severity

/-- Diagnostics with the position of every finding moved. -/
def relocateAll (move : Cursor → Cursor) : List Diagnostic → List Diagnostic
  | [] => []
  | d :: ds => relocate move d :: relocateAll move ds

end

variable (move : Cursor → Cursor)

/-- Diagnostics in a list are relocated one by one. -/
theorem relocateAll_eq_map (ds : List Diagnostic) :
    relocateAll move ds = ds.map (relocate move) := by
  induction ds with
  | nil => rfl
  | cons d ds ih => rw [relocateAll, ih, List.map_cons]

@[simp]
theorem severity_relocate (d : Diagnostic) : (d.relocate move).severity = d.severity := by
  cases d <;> rfl

@[simp]
theorem isFatal_relocate (d : Diagnostic) : (d.relocate move).isFatal = d.isFatal := by
  rw [isFatal, isFatal, severity_relocate]

theorem escalate_relocate (d : Diagnostic) :
    (d.relocate move).escalate = d.escalate.relocate move := by
  cases d <;> rfl

theorem alternatives_relocate (d : Diagnostic) :
    (d.relocate move).alternatives = d.alternatives.map (relocate move) := by
  cases d with
  | oneOf ds severity => exact relocateAll_eq_map move ds
  | finding f => rfl
  | because f reason => rfl

/-- Failures are relocated one by one before they are listed in a choice, or afterwards. -/
theorem combine_relocate (failures : List Diagnostic) :
    combine (failures.map (relocate move)) = (combine failures).relocate move := by
  have hflat : (failures.map (relocate move)).flatMap alternatives =
      (failures.flatMap alternatives).map (relocate move) := by
    rw [List.flatMap_map, List.map_flatMap]
    simp only [alternatives_relocate]
  rw [combine, combine, relocate, relocateAll_eq_map, hflat]

end Diagnostic

namespace Failure

/-- A failure with the position of every finding moved. -/
def relocate (move : Cursor → Cursor) (e : Failure) : Failure :=
  e.map (Diagnostic.relocate move)

variable (move : Cursor → Cursor)

@[simp]
theorem relocate_diagnostic (d : Diagnostic) : (diagnostic d).relocate move = d.relocate move := rfl

@[simp]
theorem isFatal_relocate (e : Failure) : (e.relocate move).isFatal = e.isFatal := by
  cases e with
  | diagnostic d => exact d.isFatal_relocate move
  | fault f => rfl

end Failure

/-! ### Parsers at relocated positions -/

namespace Relocation

variable (R : Relocation) {α β γ δ : Type}

section Positions

variable (c : Cursor)

@[simp]
theorem skipSpace : (R.move c).skipSpace = R.move c.skipSpace := by
  rw [Cursor.skipSpace, R.rest, R.advance, Cursor.skipSpace]

@[simp]
theorem peek : (R.move c).peek = c.peek := by
  rw [Cursor.peek, R.rest, Cursor.peek]

@[simp]
theorem atEnd : (R.move c).atEnd = c.atEnd := by
  rw [Cursor.atEnd, R.rest, Cursor.atEnd]

@[simp]
theorem ahead? (n : Nat) : (R.move c).ahead? n = c.ahead? n := by
  rw [Cursor.ahead?, R.rest, Cursor.ahead?]

@[simp]
theorem atKeyword (word : Text) : (R.move c).atKeyword word = c.atKeyword word := by
  simp [Cursor.atKeyword, Cursor.startsWith]

end Positions

/-- A result in which positions are moved, as `f` does, or a relocated failure. -/
def result (f : α → β) : Except Failure α → Except Failure β
  | .ok a => .ok (f a)
  | .error e => .error (e.relocate R.move)

@[simp]
theorem result_ok (f : α → β) (a : α) : R.result f (.ok a) = .ok (f a) := rfl

@[simp]
theorem result_error (f : α → β) (e : Failure) :
    R.result f (.error e) = .error (e.relocate R.move) := rfl

/-- A sequence of results is relocated part by part. -/
theorem result_bind {f : α → β} {g : γ → δ} {k : α → Except Failure γ}
    {k' : β → Except Failure δ} (h : ∀ a, k' (f a) = R.result g (k a))
    (x : Except Failure α) : R.result f x >>= k' = R.result g (x >>= k) := by
  cases x with
  | ok a => exact h a
  | error e => rfl

/-- What is done to failures commutes with relocation if it does so for diagnostics. -/
theorem result_mapError {f : α → β} {g g' : Diagnostic → Diagnostic}
    (h : ∀ d, g' (d.relocate R.move) = (g d).relocate R.move) (x : Except Failure α) :
    (R.result f x).mapError (Failure.map g') = R.result f (x.mapError (Failure.map g)) := by
  rcases x with (d | fault) | a
  · exact congrArg (fun d : Diagnostic => Except.error (Failure.diagnostic d)) (h d)
  · rfl
  · rfl

/-- At the relocated position, the second parser does what the first one does at the position
itself. The values that they read correspond by `f`. -/
def Tracks (f : α → β) (p : Parser α) (q : Parser β) : Prop :=
  ∀ c, q.outcome (R.move c) = R.result (Prod.map f R.move) (p.outcome c)

namespace Tracks

variable {R} {f : α → β} {g : γ → δ} {p : Parser α} {q : Parser β}

theorem pure {a : α} {b : β} (h : b = f a) : R.Tracks f (Pure.pure a) (Pure.pure b) :=
  fun _ => h ▸ rfl

/-- A sequence tracks another if its parts do, the second ones at corresponding values. -/
theorem bind {k : α → Parser γ} {k' : β → Parser δ} (h : R.Tracks f p q)
    (hk : ∀ a, R.Tracks g (k a) (k' (f a))) : R.Tracks g (p >>= k) (q >>= k') := by
  intro c
  rw [Parser.outcome_bind, Parser.outcome_bind, h c]
  apply R.result_bind
  rintro ⟨a, c'⟩
  exact hk a c'

/-- A sequence whose first part reads the same value at both positions. -/
theorem seq {p q : Parser α} {k : α → Parser γ} {k' : α → Parser δ} (h : R.Tracks id p q)
    (hk : ∀ a, R.Tracks g (k a) (k' a)) : R.Tracks g (p >>= k) (q >>= k') :=
  h.bind hk

theorem map {h : α → γ} {h' : β → δ} (hp : R.Tracks f p q) (hh : ∀ a, h' (f a) = g (h a)) :
    R.Tracks g (h <$> p) (h' <$> q) := by
  rw [← bind_pure_comp, ← bind_pure_comp]
  exact hp.bind fun a => .pure (hh a)

theorem here : R.Tracks R.move Parser.here Parser.here :=
  fun _ => rfl

theorem take (n : Nat) : R.Tracks id (Parser.take n) (Parser.take n) := by
  intro c
  simp

theorem note (m n : Note) : R.Tracks id (Parser.note m) (Parser.note n) :=
  fun _ => rfl

theorem fail {d d' : Diagnostic} (h : d' = d.relocate R.move) :
    R.Tracks f (Parser.fail d) (Parser.fail d') :=
  fun _ => h ▸ rfl

/-- A check tracks another if their results correspond. -/
theorem ofExcept {x : Except Failure α} {y : Except Failure β} (h : y = R.result f x) :
    R.Tracks f (Parser.ofExcept x) (Parser.ofExcept y) := by
  intro c
  subst h
  cases x <;> rfl

/-- A demand is met or not, wherever it is made. -/
theorem demand (f : Fault) (x : Option α) :
    R.Tracks id (Parser.demand f x) (Parser.demand f x) := by
  cases x with
  | none => exact .ofExcept rfl
  | some a => exact .pure rfl

theorem committed (h : R.Tracks f p q) :
    R.Tracks f (Parser.committed p) (Parser.committed q) := by
  intro c
  rw [Parser.outcome_committed, Parser.outcome_committed, h c]
  exact R.result_mapError (Diagnostic.escalate_relocate R.move) _

/-- A choice passes over the same alternatives at both positions. -/
theorem choice {ps : List (Parser α)} {qs : List (Parser β)}
    (h : List.Forall₂ (R.Tracks f) ps qs) (failures : List Diagnostic) :
    R.Tracks f (Parser.choice failures ps)
      (Parser.choice (failures.map (Diagnostic.relocate R.move)) qs) := by
  induction h generalizing failures with
  | nil => exact .fail (Diagnostic.combine_relocate R.move failures)
  | @cons p q ps qs hp _ ih =>
    intro c
    rw [Parser.outcome_choice_cons, Parser.outcome_choice_cons, hp c]
    rcases p.outcome c with (d | fault) | r
    · simp only [result_error, Failure.relocate_diagnostic, Diagnostic.isFatal_relocate]
      split
      · rfl
      · rw [← ih (failures ++ [d]) c, List.map_append, List.map_singleton]
    · rfl
    · rfl

/-- The failures that a choice collects are relocated one by one. -/
theorem alt_map {ι : Type} {ps : ι → Parser α} {qs : ι → Parser β} (is : List ι)
    (h : ∀ i, R.Tracks f (ps i) (qs i)) :
    R.Tracks f (Parser.alt (is.map ps)) (Parser.alt (is.map qs)) := by
  refine choice (List.forall₂_map_left_iff.2 (List.forall₂_map_right_iff.2 ?_)) []
  exact List.forall₂_same.2 fun i _ => h i

theorem optional (h : R.Tracks f p q) :
    R.Tracks (Option.map f) (Parser.optional p) (Parser.optional q) := by
  intro c
  rw [Parser.outcome_optional, Parser.outcome_optional, h c]
  cases p.outcome c with
  | ok r => rfl
  | error e =>
    simp only [result_error, Failure.isFatal_relocate]
    split <;> rfl

/-- A repetition goes on as often at the relocated position, since it consumes as much. -/
theorem many0 (h : R.Tracks f p q) :
    R.Tracks (List.map f) (Parser.many0 p) (Parser.many0 q) := by
  intro c
  induction hn : c.remaining using Nat.strongRecOn generalizing c with
  | ind n ih =>
    rw [Parser.outcome_many0, Parser.outcome_many0, h c]
    cases p.outcome c with
    | ok r =>
      simp only [result_ok, Prod.map_fst, Prod.map_snd, R.remaining]
      split
      · next hlt =>
        rw [ih _ (hn ▸ hlt) r.2 rfl]
        apply R.result_bind
        intro s
        rfl
      · rfl
    | error e =>
      simp only [result_error, Failure.isFatal_relocate]
      split <;> rfl

theorem many1 (h : R.Tracks f p q) :
    R.Tracks (List.map f) (Parser.many1 p) (Parser.many1 q) :=
  h.bind fun _ => h.many0.bind fun _ => .pure rfl

end Tracks

end Relocation

/-! ### Tokens -/

namespace Parser

variable {R : Relocation} {α β : Type} {f : α → β}

theorem run0_tracks (k : CharClass) : R.Tracks id (run0 k) (run0 k) := by
  refine .bind .here fun c => ?_
  rw [R.rest]
  exact .take _

theorem run1_tracks (k : CharClass) : R.Tracks id (run1 k) (run1 k) := by
  refine .bind .here fun c => ?_
  rw [R.rest]
  dsimp only
  split
  · exact .fail rfl
  · exact .take _

theorem skipSpace_tracks : R.Tracks id skipSpace skipSpace :=
  .seq (run0_tracks .blank) fun _ => .pure rfl

theorem space_tracks : R.Tracks id space space :=
  .seq (run1_tracks .blank) fun _ => .pure rfl

theorem takeUntil_tracks (mark : Text) : R.Tracks id (takeUntil mark) (takeUntil mark) := by
  refine .bind .here fun c => ?_
  rw [R.rest, R.inSource]
  split
  · exact .take _
  · exact .fail rfl

theorem name_tracks : R.Tracks id name name := by
  refine .bind .here fun c => ?_
  rw [R.rest, R.ahead?]
  split
  · exact .take _
  · exact .fail rfl

theorem keyword_tracks (word : Text) : R.Tracks id (keyword word) (keyword word) := by
  refine .bind .here fun c => ?_
  rw [R.atKeyword]
  split
  · exact .seq (.take _) fun _ => .pure rfl
  · exact .fail rfl

theorem symbol_tracks (mark : Text) : R.Tracks id (symbol mark) (symbol mark) := by
  refine .bind .here fun c => ?_
  rw [R.peek]
  split
  · exact .seq (.take _) fun _ => .pure rfl
  · exact .fail rfl

theorem nextKeyword_tracks (word : Text) : R.Tracks id (nextKeyword word) (nextKeyword word) :=
  .seq space_tracks fun _ => keyword_tracks word

theorem nextSymbol_tracks (mark : Text) : R.Tracks id (nextSymbol mark) (nextSymbol mark) :=
  .seq skipSpace_tracks fun _ => symbol_tracks mark

theorem terminator_tracks : R.Tracks id terminator terminator := by
  intro c
  rw [outcome_terminator, outcome_terminator, R.skipSpace, R.peek, R.advance]
  split <;> rfl

/-- Whether a closing brace is just behind does not change. -/
theorem clauseTerminator_tracks : R.Tracks id clauseTerminator clauseTerminator := by
  intro c
  simp only [outcome_clauseTerminator, R.brace, R.skipSpace, R.peek, R.advance]
  split
  · split <;> rfl
  · exact terminator_tracks c

theorem keywordChoice_tracks (words : List Text) :
    R.Tracks id (keywordChoice words) (keywordChoice words) := by
  intro c
  rw [outcome_keywordChoice, outcome_keywordChoice, funext (R.atKeyword c)]
  cases words.find? c.atKeyword with
  | some word => simp
  | none =>
    simp only [Relocation.result_error, Failure.relocate_diagnostic, Diagnostic.relocate,
      Diagnostic.relocateAll_eq_map, List.map_map]
    rfl

/-- The further elements of lists are read alike if elements are. -/
theorem moreElements_tracks (separator : Text) {p : Parser α} {q : Parser β}
    (h : R.Tracks f p q) :
    R.Tracks (List.map f) (moreElements separator p) (moreElements separator q) := by
  intro c
  induction hn : c.remaining using Nat.strongRecOn generalizing c with
  | ind n ih =>
    simp only [outcome_moreElements separator _ (R.move c), R.skipSpace, R.peek, R.advance, h _]
    rw [outcome_moreElements]
    split
    · apply R.result_bind
      intro r
      simp only [Prod.map_fst, Prod.map_snd, R.remaining]
      split
      · next hlt =>
        rw [ih _ (hn ▸ hlt) r.2 rfl]
        apply R.result_bind
        intro s
        rfl
      · rfl
    · rfl

/-- Lists are read alike if their elements are. -/
theorem list_tracks (marks : ListMarks) {p : Parser α} {q : Parser β} (h : R.Tracks f p q) :
    R.Tracks (List.map f) (list marks p) (list marks q) := by
  refine .seq (symbol_tracks _) fun _ => .seq skipSpace_tracks fun _ => .bind .here fun c => ?_
  have hclose (elements : List α) : R.Tracks (List.map f)
      (do nextSymbol marks.closing; return elements)
      (do nextSymbol marks.closing; return elements.map f) :=
    .seq (nextSymbol_tracks _) fun _ => .pure rfl
  dsimp only
  rw [R.peek]
  split
  · exact hclose []
  · exact .bind h fun _ => .bind (moreElements_tracks _ h) fun _ => hclose _

end Parser

end EventRules
