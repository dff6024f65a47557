/-
# Parsers that fail orderly

A parser is orderly from a position on when, wherever it starts behind the position, it moves
forward if it succeeds, and fails with an orderly diagnostic whose findings point at text from the
position on. In particular it never fails with a fault of the compiler. Diagnostics are often made
after the text that they are about has been read, so the position is fixed and does not follow the
cursor; for a statement it is where the statement starts.

Like what a parser yields, being orderly passes through every combinator. The values that are read
carry along what a later diagnostic needs to know: where they stand, and how much text they are.
-/

import EventRules.Proofs.DiagnosticTree
import EventRules.Proofs.Outcome

namespace EventRules

variable {α β : Type} {V : α → Prop} {W : β → Prop} {b c : Cursor}

/-- The failure is an orderly diagnostic on text from `b` on, and no fault. -/
def Failure.OrderlyFrom (b : Cursor) : Failure → Prop
  | diagnostic d => d.Orderly (Finding.ReadFrom b)
  | fault _ => False

/-- A value with the property and a cursor behind `b`, or an orderly failure on text from `b` on. -/
def OrderlyOutcome (b : Cursor) (V : α → Prop) : Except Failure (α × Cursor) → Prop
  | .ok (a, c) => b.Leads c ∧ V a
  | .error e => e.OrderlyFrom b

namespace OrderlyOutcome

variable {x : Except Failure (α × Cursor)}

theorem mono {V' : α → Prop} (h : OrderlyOutcome b V x) (hV : ∀ a, V a → V' a) :
    OrderlyOutcome b V' x := by
  cases x with
  | error e => exact h
  | ok r => exact h.imp id (hV _)

/-- A sequence is orderly if its parts are, the second ones at values that the first one reads. -/
protected theorem bind {f : α × Cursor → Except Failure (β × Cursor)}
    (h : OrderlyOutcome b V x)
    (hf : ∀ a c, x = .ok (a, c) → b.Leads c → V a → OrderlyOutcome b W (f (a, c))) :
    OrderlyOutcome b W (x >>= f) := by
  cases x with
  | error e => exact h
  | ok r => exact hf r.1 r.2 rfl h.1 h.2

/-- A diagnostic may be changed where it is passed on. -/
theorem mapError {g : Diagnostic → Diagnostic} (h : OrderlyOutcome b V x)
    (hg : ∀ d, d.Orderly (Finding.ReadFrom b) → (g d).Orderly (Finding.ReadFrom b)) :
    OrderlyOutcome b V (x.mapError (Failure.map g)) := by
  rcases x with (d | fault) | r
  · exact hg d h
  · exact h
  · exact h

end OrderlyOutcome

namespace Parser

variable {p : Parser α} {f : α → Parser β}

/-- The parser is orderly at a cursor. -/
def OrderlyAt (p : Parser α) (b c : Cursor) (V : α → Prop) : Prop :=
  OrderlyOutcome b V (p.outcome c)

/-- The parser is orderly at every cursor behind `b`. -/
def Orderly (p : Parser α) (b : Cursor) (V : α → Prop) : Prop :=
  ∀ ⦃c : Cursor⦄, b.Leads c → p.OrderlyAt b c V

/-- The parser is orderly, whatever it reads. -/
abbrev OrderlyFrom (p : Parser α) (b : Cursor) : Prop :=
  p.Orderly b fun _ => True

/-! ### Combinators -/

namespace OrderlyAt

theorem leads {a : α} {c' : Cursor} (hp : p.OrderlyAt b c V) (h : p.outcome c = .ok (a, c')) :
    b.Leads c' := by
  rw [OrderlyAt, h] at hp
  exact hp.1

/-- A second parser may rely on where the first one has ended. -/
theorem bindAt (hp : p.OrderlyAt b c V)
    (hf : ∀ a c', p.outcome c = .ok (a, c') → b.Leads c' → V a → (f a).OrderlyAt b c' W) :
    (p >>= f).OrderlyAt b c W := by
  rw [OrderlyAt, outcome_bind]
  exact OrderlyOutcome.bind hp hf

/-- A second parser may rely on what the first one has read. -/
protected theorem bind (hp : p.OrderlyAt b c V) (hf : ∀ a, V a → (f a).Orderly b W) :
    (p >>= f).OrderlyAt b c W :=
  hp.bindAt fun a _ _ hlead ha => hf a ha hlead

/-- After a look at the cursor, it is enough to be orderly there. -/
theorem bindHere {f : Cursor → Parser β} (hf : (f c).OrderlyAt b c W) :
    (here >>= f).OrderlyAt b c W :=
  hf

protected theorem map {f : α → β} (hp : p.OrderlyAt b c fun a => W (f a)) :
    (f <$> p).OrderlyAt b c W := by
  rw [← bind_pure_comp]
  exact hp.bindAt fun _ _ _ hlead h => ⟨hlead, h⟩

protected theorem committed (hp : p.OrderlyAt b c V) : (Parser.committed p).OrderlyAt b c V :=
  OrderlyOutcome.mapError hp fun _ => Diagnostic.escalate_orderly

/-- A choice is orderly if it has two alternatives or more. What was tried before has failed
recoverably, so that it may be listed in the end. -/
theorem choice {failures : List Diagnostic} {ps : List (Parser α)}
    (hlength : 2 ≤ failures.length + ps.length)
    (hfailures : ∀ d ∈ failures, d.Orderly (Finding.ReadFrom b) ∧ d.isFatal = false)
    (h : ∀ p ∈ ps, p.OrderlyAt b c V) : (Parser.choice failures ps).OrderlyAt b c V := by
  -- what was tried before has failed recoverably, so that it may be listed in the end
  induction ps generalizing failures with
  | nil => exact .combine hlength hfailures
  | cons p ps ih =>
    obtain ⟨hp : OrderlyOutcome b V (p.outcome c), hps⟩ := List.forall_mem_cons.1 h
    rw [OrderlyAt, outcome_choice_cons]
    generalize p.outcome c = x at hp ⊢
    rcases x with (d | fault) | r
    · dsimp only
      split
      · exact hp
      · next hfatal =>
        refine ih ?_ (List.forall_mem_append.2 ⟨hfailures, List.forall_mem_singleton.2
          ⟨hp, Bool.eq_false_iff.2 hfatal⟩⟩) hps
        rw [List.length_append, List.length_singleton]
        rw [List.length_cons] at hlength
        omega
    · exact hp
    · exact hp

/-- A choice between two alternatives or more is orderly when all of them are. -/
protected theorem alt {ps : List (Parser α)} (hlength : 2 ≤ ps.length)
    (h : ∀ p ∈ ps, p.OrderlyAt b c V) : (Parser.alt ps).OrderlyAt b c V :=
  choice (by simpa using hlength) (List.forall_mem_nil _) h

end OrderlyAt

namespace Orderly

protected theorem pure {a : α} (h : V a) : (pure a : Parser α).Orderly b V :=
  fun _ hc => ⟨hc, h⟩

/-- A sequence is orderly if its parts are. -/
protected theorem bind (hp : p.Orderly b V) (hf : ∀ a, V a → (f a).Orderly b W) :
    (p >>= f).Orderly b W :=
  fun _ hc => (hp hc).bind hf

theorem bindHere {f : Cursor → Parser β} (hf : ∀ c, b.Leads c → (f c).OrderlyAt b c W) :
    (here >>= f).Orderly b W :=
  fun c hc => hf c hc

protected theorem fail {d : Diagnostic} (h : d.Orderly (Finding.ReadFrom b)) :
    (Parser.fail d : Parser α).Orderly b V :=
  fun _ _ => h

/-- A check is orderly if its failures are. -/
protected theorem ofExcept {x : Except Failure α} (hok : ∀ a, x = .ok a → V a)
    (herror : ∀ e, x = .error e → e.OrderlyFrom b) : (ofExcept x).Orderly b V := by
  intro c hc
  rw [OrderlyAt, outcome_ofExcept]
  cases x with
  | error e => exact herror e rfl
  | ok a => exact ⟨hc, hok a rfl⟩

protected theorem note (n : Note) : (Parser.note n).OrderlyFrom b :=
  fun _ hc => ⟨hc, trivial⟩

protected theorem committed (hp : p.Orderly b V) : (Parser.committed p).Orderly b V :=
  fun _ hc => (hp hc).committed

/-- An option is orderly, since only its fatal failures show. -/
protected theorem optional (hp : p.Orderly b V) : (Parser.optional p).OrderlyFrom b := by
  intro c hc
  have hpc : OrderlyOutcome b V (p.outcome c) := hp hc
  rw [OrderlyAt, outcome_optional]
  generalize p.outcome c = x at hpc ⊢
  cases x with
  | ok r => exact ⟨hpc.1, trivial⟩
  | error e =>
    dsimp only
    split
    · exact hpc
    · exact ⟨hc, trivial⟩

/-- A choice between two alternatives or more is orderly. -/
protected theorem alt {ps : List (Parser α)} (hlength : 2 ≤ ps.length)
    (h : ∀ p ∈ ps, p.Orderly b V) : (Parser.alt ps).Orderly b V :=
  fun _ hc => .alt hlength fun p hp => h p hp hc

/-- A repetition is orderly, since only the fatal failures of its elements show. -/
protected theorem many0 (hp : p.Orderly b V) : (Parser.many0 p).OrderlyFrom b := by
  intro c hc
  induction hn : c.remaining using Nat.strongRecOn generalizing c with
  | ind n ih =>
    have hpc : OrderlyOutcome b V (p.outcome c) := hp hc
    rw [OrderlyAt, outcome_many0]
    generalize p.outcome c = x at hpc ⊢
    cases x with
    | ok r =>
      dsimp only
      split
      · next hlt =>
        have hrest : OrderlyOutcome b _ _ := ih _ (hn ▸ hlt) hpc.1 rfl
        exact hrest.bind fun _ _ _ hlead _ => ⟨hlead, trivial⟩
      · exact ⟨hc, trivial⟩
    | error e =>
      dsimp only
      split
      · exact hpc
      · exact ⟨hc, trivial⟩

/-- A repetition of at least one is orderly, and it has an element. -/
protected theorem many1 (hp : p.Orderly b V) : (Parser.many1 p).Orderly b (· ≠ []) :=
  .bind hp fun _ _ => .bind hp.many0 fun _ _ => .pure (List.cons_ne_nil _ _)

end Orderly

/-! ### Tokens -/

theorem length_takeWhile_rest_le (c : Cursor) (q : Char → Bool) :
    (c.rest.takeWhile q).length ≤ c.rest.length :=
  (List.takeWhile_prefix q).length_le

theorem run0_orderly (k : CharClass) : (run0 k).OrderlyFrom b := by
  intro c hc
  rw [OrderlyAt, outcome_run0]
  exact ⟨hc.trans (c.leads_advance _), trivial⟩

/-- What is read of a class spans a text from the start on. -/
theorem run1_orderlyAt (k : CharClass) (hc : b.Leads c) :
    (run1 k).OrderlyAt b c fun t => b.Spans c t.length := by
  rw [OrderlyAt, outcome_run1]
  split
  · exact Diagnostic.expected_orderly hc _
  · exact ⟨hc.trans (c.leads_advance _), hc, length_takeWhile_rest_le c _⟩

theorem skipSpace_orderly : skipSpace.OrderlyFrom b :=
  .bind (run0_orderly _) fun _ _ => .pure trivial

theorem space_orderly : space.OrderlyFrom b :=
  fun _ hc => (run1_orderlyAt _ hc).bind fun _ _ => .pure trivial

theorem takeUntil_orderly (mark : Text) : (takeUntil mark).OrderlyFrom b := by
  intro c hc
  rw [OrderlyAt, outcome_takeUntil]
  split
  · exact ⟨hc.trans (c.leads_advance _), trivial⟩
  · exact Diagnostic.finding_orderly hc nofun

/-- What is read as a name spans a text from the start on. -/
theorem name_orderlyAt (hc : b.Leads c) : name.OrderlyAt b c fun t => b.Spans c t.length := by
  rw [OrderlyAt, outcome_name]
  split
  · exact ⟨hc.trans (c.leads_advance _), hc, length_takeWhile_rest_le c _⟩
  · exact Diagnostic.expectedBecause_orderly hc _ (Diagnostic.expected_orderly hc _) rfl

theorem keyword_orderly (word : Text) : (keyword word).OrderlyFrom b := by
  intro c hc
  rw [OrderlyAt, outcome_keyword]
  split
  · exact ⟨hc.trans (c.leads_advance _), trivial⟩
  · exact Diagnostic.expected_orderly hc _

theorem symbol_orderly (mark : Text) : (symbol mark).OrderlyFrom b := by
  intro c hc
  rw [OrderlyAt, outcome_symbol]
  split
  · exact ⟨hc.trans (c.leads_advance _), trivial⟩
  · exact Diagnostic.expected_orderly hc _

theorem terminator_orderly : terminator.OrderlyFrom b := by
  intro c hc
  rw [OrderlyAt, outcome_terminator]
  split
  · exact ⟨hc.trans (c.leads_skipSpace.trans (Cursor.leads_advance _ _)), trivial⟩
  · exact Diagnostic.expected_orderly hc _

theorem clauseTerminator_orderly : clauseTerminator.OrderlyFrom b := by
  intro c hc
  rw [OrderlyAt, outcome_clauseTerminator]
  split
  · split
    · exact ⟨hc.trans (c.leads_skipSpace.trans (Cursor.leads_advance _ _)), trivial⟩
    · exact ⟨hc, trivial⟩
  · exact terminator_orderly hc

theorem nextKeyword_orderly (word : Text) : (nextKeyword word).OrderlyFrom b :=
  .bind space_orderly fun _ _ => keyword_orderly word

theorem nextSymbol_orderly (mark : Text) : (nextSymbol mark).OrderlyFrom b :=
  .bind skipSpace_orderly fun _ _ => symbol_orderly mark

/-- A choice of words gives one of them, which stands at the cursor. -/
theorem keywordChoice_orderlyAt {words : List Text} (hlength : 2 ≤ words.length)
    (hc : b.Leads c) :
    (keywordChoice words).OrderlyAt b c fun word => word ∈ words ∧ b.Spans c word.length := by
  rw [OrderlyAt, outcome_keywordChoice]
  split
  · next word hword =>
    have hat : c.atKeyword word := List.find?_some hword
    rw [Cursor.atKeyword, Bool.and_eq_true, Cursor.startsWith, Bool.and_eq_true,
      List.isPrefixOf_iff_prefix] at hat
    exact ⟨hc.trans (c.leads_advance _), List.mem_of_find?_eq_some hword, hc, hat.1.1.length_le⟩
  · refine .oneOf (by rwa [List.length_map]) ?_ ?_ <;>
      refine List.forall_mem_map.2 fun w _ => ?_
    · exact ⟨rfl, rfl⟩
    · exact Diagnostic.expected_orderly hc _

/-- The further elements of a list are orderly if elements are. -/
theorem moreElements_orderly (separator : Text) (hp : p.Orderly b V) :
    (moreElements separator p).Orderly b fun as => ∀ a ∈ as, V a := by
  intro c hc
  induction hn : c.remaining using Nat.strongRecOn generalizing c with
  | ind n ih =>
    rw [OrderlyAt, outcome_moreElements]
    split
    · have hfirst : b.Leads (c.skipSpace.advance 1).skipSpace := hc.trans
        (c.leads_skipSpace.trans ((c.skipSpace.leads_advance 1).trans (Cursor.leads_skipSpace _)))
      refine OrderlyOutcome.bind (hp hfirst) fun a c' _ hlead ha => ?_
      dsimp only
      split
      · next hlt =>
        refine OrderlyOutcome.bind (ih _ (hn ▸ hlt) hlead rfl) fun as e _ hlead has => ?_
        exact ⟨hlead, List.forall_mem_cons.2 ⟨ha, has⟩⟩
      · exact ⟨hlead, List.forall_mem_singleton.2 ha⟩
    · exact ⟨hc, fun a ha => nomatch ha⟩

/-- A list is orderly if its elements are. -/
theorem list_orderly (marks : ListMarks) (hp : p.Orderly b V) :
    (list marks p).Orderly b fun as => ∀ a ∈ as, V a := by
  have hend : ∀ as : List α, (∀ a ∈ as, V a) → Orderly
      (do nextSymbol marks.closing; return as) b fun as => ∀ a ∈ as, V a :=
    fun as has => .bind (nextSymbol_orderly _) fun _ _ => .pure has
  refine .bind (symbol_orderly _) fun _ _ => .bind skipSpace_orderly fun _ _ =>
    .bindHere fun c hc => ?_
  dsimp only
  split
  · exact Orderly.bind (.pure (V := fun as => ∀ a ∈ as, V a) (List.forall_mem_nil V)) hend hc
  · refine Orderly.bind hp (fun a ha => .bind (moreElements_orderly _ hp) fun as has => ?_) hc
    exact .bind (.pure (V := fun as => ∀ a ∈ as, V a) (List.forall_mem_cons.2 ⟨ha, has⟩)) hend

end Parser

end EventRules
