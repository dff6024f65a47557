/-
# Runs of parser expressions

A parser expression runs in stages. At a stage it ends, or it applies one of its expressions and
then ends or goes on, according to what that comes to. Nothing bounds the number of stages: a
repetition goes on as long as the offset changes, and a list as long as there is a separator.

A run keeps to the text from its start on. If it succeeds, it ends there, and if it fails, its
findings point there and no choice lists another choice. It is enough to look at one stage at a
time, together with the failures that a choice has gathered so far.
-/

import EventRules.Grammar.Expression
import EventRules.Proofs.OrderlyStatement
import EventRules.Proofs.Termination

namespace EventRules

/-! ### Stages -/

namespace ParserExpr

/-- What an expression comes to: plain data and the cursor behind it, or a failure. -/
abbrev Answer : Type :=
  Except Failure (Datum × Cursor)

/-- The expression is a token, and no combinator. -/
def isToken : ParserExpr → Bool
  | seq _ | alt _ | committed _ | optional _ | many0 _ | many1 _ | list _ _ => false
  | _ => true

/-- A token, or a point in the work of a combinator, with what has been gathered so far and the
expressions that may still be applied. -/
inductive Stage
  | token (e : ParserExpr)
  | parts (read : List Datum) (left : List ParserExpr)
  | alternatives (failures : List Diagnostic) (left : List ParserExpr)
  | commitment (inner : ParserExpr)
  | option (inner : ParserExpr)
  | repetition (read : List Datum) (inner : ParserExpr)
  | first (inner : ParserExpr)
  | list (marks : Parser.ListMarks) (element : ParserExpr)
  | elements (read : List Datum) (marks : Parser.ListMarks) (element : ParserExpr)

/-- The stage at which an expression starts. -/
def start : ParserExpr → Stage
  | seq parts => .parts [] parts
  | alt alternatives => .alternatives [] alternatives
  | committed inner => .commitment inner
  | optional inner => .option inner
  | many0 inner => .repetition [] inner
  | many1 inner => .first inner
  | list marks element => .list marks element
  | e => .token e

/-- What a run does at a stage: it ends, or it applies an expression and waits for the answer. -/
inductive Move
  | ends (answer : Answer)
  | applies (e : ParserExpr) (c : Cursor) (reply : Answer → Round (Stage × Cursor) Answer)

/-- The reply that goes on behind what was read, and fails with a failure. -/
def goOn (next : Datum → Stage) : Answer → Round (Stage × Cursor) Answer
  | .ok (d, c) => .goesOn (next d, c)
  | .error e => .ends (.error e)

/-- The end of a list. -/
def closing (marks : Parser.ListMarks) (read : List Datum) (c : Cursor) : Answer :=
  ((Parser.nextSymbol marks.closing).outcome c).map fun r => (.list read, r.2)

/-- What a run does at a stage. -/
def Stage.move : Stage → Cursor → Move
  | token e, c => .ends (e.parser.outcome c)
  | parts read [], c => .ends (.ok (.list read, c))
  | parts read (e :: es), c => .applies e c (goOn fun d => .parts (read ++ [d]) es)
  | alternatives failures [], _ => .ends (.error (Diagnostic.combine failures))
  | alternatives failures (e :: es), c => .applies e c fun
    | .ok r => .ends (.ok r)
    | .error (.fault f) => .ends (.error f)
    | .error (.diagnostic d) =>
      if d.isFatal then .ends (.error d) else .goesOn (.alternatives (failures ++ [d]) es, c)
  | commitment inner, c =>
    .applies inner c fun x => .ends (x.mapError (Failure.map Diagnostic.escalate))
  | option inner, c => .applies inner c fun
    | .ok r => .ends (.ok r)
    | .error d => .ends (if d.isFatal then .error d else .ok (.nothing, c))
  | repetition read inner, c => .applies inner c fun
    | .ok (d, c') =>
      if c'.offset = c.offset then .ends (.ok (.list read, c))
      else .goesOn (.repetition (read ++ [d]) inner, c')
    | .error d => .ends (if d.isFatal then .error d else .ok (.list read, c))
  | first inner, c => .applies inner c (goOn fun d => .repetition [d] inner)
  | list marks element, c =>
    if c.peek = marks.opening then
      if (c.advance 1).skipSpace.peek = marks.closing then
        .ends (closing marks [] (c.advance 1).skipSpace)
      else .applies element (c.advance 1).skipSpace (goOn fun d => .elements [d] marks element)
    else .ends (.error (Diagnostic.expected c (.symbol marks.opening)))
  | elements read marks element, c =>
    if c.skipSpace.peek = marks.separator then
      .applies element (c.skipSpace.advance 1).skipSpace
        (goOn fun d => .elements (read ++ [d]) marks element)
    else .ends (closing marks read c)

/-! ### Runs -/

/-- An expression was applied at a cursor, and this is what it came to. -/
structure Application where
  start : Cursor
  answer : Answer

/-- What the application has read, provided that it has moved the cursor forward. -/
def Application.consumed? (a : Application) : Option Datum :=
  match a.answer with
  | .ok (d, c) => if a.start.offset < c.offset then some d else none
  | .error _ => none

/-- From a stage at a cursor, the run ends with the answer after the applications, in order. The
applications within an application are not listed. -/
inductive Runs : Stage → Cursor → List Application → Answer → Prop
  | ends {s : Stage} {c : Cursor} {x : Answer} (hmove : s.move c = .ends x) : Runs s c [] x
  | last {s : Stage} {c d : Cursor} {e : ParserExpr} {x y : Answer} {within : List Application}
      {reply : Answer → Round (Stage × Cursor) Answer} (hmove : s.move c = .applies e d reply)
      (hinner : Runs e.start d within y) (hreply : reply y = .ends x) : Runs s c [⟨d, y⟩] x
  | more {s s' : Stage} {c c' d : Cursor} {e : ParserExpr} {x y : Answer}
      {within after : List Application} {reply : Answer → Round (Stage × Cursor) Answer}
      (hmove : s.move c = .applies e d reply) (hinner : Runs e.start d within y)
      (hreply : reply y = .goesOn (s', c')) (hrest : Runs s' c' after x) :
      Runs s c (⟨d, y⟩ :: after) x

namespace Runs

variable {s : Stage} {c d : Cursor} {e : ParserExpr} {l l' : List Application} {x x' : Answer}

/-- A run that starts with an application. -/
theorem of_applies {reply : Answer → Round (Stage × Cursor) Answer} (h : Runs s c l x)
    (hmove : s.move c = .applies e d reply) :
    ∃ within y after, Runs e.start d within y ∧ l = ⟨d, y⟩ :: after ∧
      (reply y = .ends x ∧ after = [] ∨
        ∃ s' c', reply y = .goesOn (s', c') ∧ Runs s' c' after x) := by
  cases h with
  | ends hmove' => cases hmove.symm.trans hmove'
  | last hmove' hinner hreply =>
    cases hmove.symm.trans hmove'
    exact ⟨_, _, [], hinner, rfl, .inl ⟨hreply, rfl⟩⟩
  | more hmove' hinner hreply hrest =>
    cases hmove.symm.trans hmove'
    exact ⟨_, _, _, hinner, rfl, .inr ⟨_, _, hreply, hrest⟩⟩

/-- There is one run at most. -/
theorem unique (h : Runs s c l x) (h' : Runs s c l' x') : l' = l ∧ x' = x := by
  induction h generalizing l' x' with
  | ends hmove =>
    cases h' with
    | ends hmove' =>
      cases hmove.symm.trans hmove'
      exact ⟨rfl, rfl⟩
    | last hmove' | more hmove' => cases hmove.symm.trans hmove'
  | last hmove _ hreply ih =>
    obtain ⟨_, _, _, hinner', rfl, hnext⟩ := h'.of_applies hmove
    obtain ⟨-, rfl⟩ := ih hinner'
    rcases hnext with ⟨hreply', rfl⟩ | ⟨_, _, hreply', -⟩
    · cases hreply.symm.trans hreply'
      exact ⟨rfl, rfl⟩
    · cases hreply.symm.trans hreply'
  | more hmove _ hreply _ ih ihrest =>
    obtain ⟨_, _, _, hinner', rfl, hnext⟩ := h'.of_applies hmove
    obtain ⟨-, rfl⟩ := ih hinner'
    rcases hnext with ⟨hreply', -⟩ | ⟨_, _, hreply', hrest'⟩
    · cases hreply.symm.trans hreply'
    · cases hreply.symm.trans hreply'
      obtain ⟨rfl, rfl⟩ := ihrest hrest'
      exact ⟨rfl, rfl⟩

end Runs

end ParserExpr

/-! ### Flat diagnostics -/

namespace Diagnostic

/-- Every finding has the property, and no choice lists another choice. -/
structure Flat (P : Finding → Prop) (d : Diagnostic) : Prop where
  findings : ∀ f ∈ d.findings, P f
  choices : ∀ ds s, oneOf ds s ∈ d.nodes → ∀ a ∈ ds, a.isChoice = false

variable {P : Finding → Prop} {d : Diagnostic}

theorem Orderly.flat (h : d.Orderly P) : d.Flat P where
  findings _ hf := h.of_mem_findings hf
  choices ds s hn := by
    cases h.of_mem_nodes hn with
    | oneOf _ hplain => exact fun a ha => (hplain a ha).2

theorem Orderly.flat_of_readFrom {b : Cursor} (h : d.Orderly (Finding.ReadFrom b)) :
    d.Flat (Finding.PointsFrom b) :=
  (h.mono fun _ hf => hf.points).flat

theorem descendants_escalate (d : Diagnostic) : d.escalate.descendants = d.descendants := by
  cases d <;> rfl

/-- Escalation marks the root only, so a flat diagnostic stays flat. -/
theorem Flat.escalate (h : d.Flat P) (hP : ∀ f, P f → P { f with severity := .fatal }) :
    d.escalate.Flat P where
  findings f hf := by
    obtain ⟨n, hn, hfn⟩ := List.mem_filterMap.1 hf
    rcases mem_nodes_iff.1 hn with rfl | hn
    · cases d with
      | oneOf => cases hfn
      | finding | because =>
        cases hfn
        exact hP _ (h.findings _ (List.mem_cons_self ..))
    · rw [descendants_escalate] at hn
      exact h.findings f (List.mem_filterMap.2 ⟨n, List.mem_cons_of_mem _ hn, hfn⟩)
  choices ds s hn := by
    rcases mem_nodes_iff.1 hn with hroot | hn
    · cases d with
      | oneOf =>
        cases hroot
        exact h.choices _ _ (List.mem_cons_self ..)
      | finding | because => cases hroot
    · rw [descendants_escalate] at hn
      exact h.choices ds s (List.mem_cons_of_mem _ hn)

/-- The nodes of an alternative that a diagnostic adds to a choice are nodes of the diagnostic. -/
theorem mem_nodes_of_mem_alternatives {a n : Diagnostic} (ha : a ∈ d.alternatives)
    (hn : n ∈ a.nodes) : n ∈ d.nodes := by
  cases d with
  | oneOf => exact List.mem_cons_of_mem _ (mem_descendants_oneOf_iff.2 ⟨a, ha, hn⟩)
  | finding | because =>
    obtain rfl := List.mem_singleton.1 ha
    exact hn

theorem Flat.isChoice_of_mem_alternatives {a : Diagnostic} (h : d.Flat P)
    (ha : a ∈ d.alternatives) : a.isChoice = false := by
  cases d with
  | oneOf => exact h.choices _ _ (List.mem_cons_self ..) a ha
  | finding | because =>
    obtain rfl := List.mem_singleton.1 ha
    rfl

/-- A choice between alternatives that fail with flat diagnostics, or between none at all, fails
with a flat diagnostic. -/
theorem Flat.combine {failures : List Diagnostic} (h : ∀ d ∈ failures, d.Flat P) :
    (combine failures).Flat P := by
  have hbelow : ∀ n ∈ (Diagnostic.combine failures).descendants, ∃ d ∈ failures, n ∈ d.nodes := by
    intro n hn
    obtain ⟨a, ha, hn⟩ := mem_descendants_oneOf_iff.1 hn
    obtain ⟨d, hd, ha⟩ := List.mem_flatMap.1 ha
    exact ⟨d, hd, mem_nodes_of_mem_alternatives ha hn⟩
  constructor
  · intro f hf
    obtain ⟨n, hn, hfn⟩ := List.mem_filterMap.1 hf
    rcases mem_nodes_iff.1 hn with rfl | hn
    · cases hfn
    · obtain ⟨d, hd, hn⟩ := hbelow n hn
      exact (h d hd).findings f (List.mem_filterMap.2 ⟨n, hn, hfn⟩)
  · intro ds s hn a ha
    rcases mem_nodes_iff.1 hn with hroot | hn
    · cases hroot
      obtain ⟨d, hd, ha⟩ := List.mem_flatMap.1 ha
      exact (h d hd).isChoice_of_mem_alternatives ha
    · obtain ⟨d, hd, hn⟩ := hbelow _ hn
      exact (h d hd).choices ds s hn a ha

end Diagnostic

/-! ### Runs keep to the text from their start on -/

namespace ParserExpr

variable {b c : Cursor} {e : ParserExpr} {s : Stage}

/-- Plain data and a cursor behind `b`, or a flat diagnostic on text from `b` on. -/
def Answer.StaysBehind (b : Cursor) : Answer → Prop
  | .ok (_, c) => b.Leads c
  | .error (.diagnostic d) => d.Flat (Finding.PointsFrom b)
  | .error (.fault _) => False

/-- A token is one, and the failures that a choice has gathered are flat and on text from `b` on. -/
def Stage.StaysBehind (b : Cursor) : Stage → Prop
  | token e => e.isToken
  | alternatives failures _ => ∀ d ∈ failures, d.Flat (Finding.PointsFrom b)
  | _ => True

/-- A reply that stays behind `b`. -/
def replyStaysBehind (b : Cursor) : Round (Stage × Cursor) Answer → Prop
  | .ends x => x.StaysBehind b
  | .goesOn (s, c) => b.Leads c ∧ s.StaysBehind b

/-- A move that stays behind `b`, provided that the application it waits for does. -/
def Move.StaysBehind (b : Cursor) : Move → Prop
  | ends x => x.StaysBehind b
  | applies _ c reply =>
    b.Leads c ∧ ∀ y : Answer, y.StaysBehind b → replyStaysBehind b (reply y)

/-- What is orderly stays behind the start. -/
theorem Answer.staysBehind_of_orderly {V : Datum → Prop} {x : Answer} (h : OrderlyOutcome b V x) :
    x.StaysBehind b := by
  rcases x with (d | f) | r
  · exact Diagnostic.Orderly.flat_of_readFrom h
  · exact h
  · exact h.1

/-- Tokens are orderly. -/
theorem token_orderlyAt (he : e.isToken) (hc : b.Leads c) :
    e.parser.OrderlyAt b c fun _ => True := by
  cases e with
  | run0 k => exact .map (Parser.run0_orderly k hc)
  | run1 k => exact .map (OrderlyOutcome.mono (Parser.run1_orderlyAt k hc) fun _ _ => trivial)
  | skipSpace => exact (Parser.skipSpace_orderly hc).bind fun _ _ => .pure trivial
  | space => exact (Parser.space_orderly hc).bind fun _ _ => .pure trivial
  | name => exact .map (OrderlyOutcome.mono (Parser.name_orderlyAt hc) fun _ _ => trivial)
  | terminator => exact (Parser.terminator_orderly hc).bind fun _ _ => .pure trivial
  | keyword word => exact (Parser.keyword_orderly word hc).bind fun _ _ => .pure trivial
  | symbol mark => exact (Parser.symbol_orderly mark hc).bind fun _ _ => .pure trivial
  | takeUntil mark => exact .map (Parser.takeUntil_orderly mark hc)
  | literal => exact .map (Parser.literal_orderly hc)
  | empty => exact Parser.Orderly.pure trivial hc
  | seq | alt | committed | optional | many0 | many1 | list => cases he

theorem closing_staysBehind (marks : Parser.ListMarks) (read : List Datum) (hc : b.Leads c) :
    (closing marks read c).StaysBehind b := by
  have hclose : OrderlyOutcome b _ _ := Parser.nextSymbol_orderly marks.closing hc
  rw [closing]
  generalize (Parser.nextSymbol marks.closing).outcome c = x at hclose ⊢
  rcases x with (d | f) | r
  · exact Diagnostic.Orderly.flat_of_readFrom hclose
  · exact hclose
  · exact hclose.1

/-- A reply that goes on stays behind the start if what was applied does. -/
theorem goOn_staysBehind {next : Datum → Stage} (hnext : ∀ d, (next d).StaysBehind b) :
    ∀ y : Answer, y.StaysBehind b → replyStaysBehind b (goOn next y) := by
  intro y hy
  cases y with
  | ok r => exact ⟨hy, hnext r.1⟩
  | error e => exact hy

/-- One move keeps to the text from `b` on. -/
theorem Stage.move_staysBehind (hs : s.StaysBehind b) (hc : b.Leads c) :
    (s.move c).StaysBehind b := by
  cases s with
  | token e => exact Answer.staysBehind_of_orderly (token_orderlyAt hs hc)
  | parts read left =>
    cases left with
    | nil => exact hc
    | cons e es => exact ⟨hc, goOn_staysBehind fun _ => trivial⟩
  | alternatives failures left =>
    cases left with
    | nil => exact Diagnostic.Flat.combine hs
    | cons e es =>
      refine ⟨hc, fun y hy => ?_⟩
      rcases y with (d | f) | r
      · dsimp only
        split
        · exact hy
        · exact ⟨hc, List.forall_mem_append.2 ⟨hs, List.forall_mem_singleton.2 hy⟩⟩
      · exact hy
      · exact hy
  | commitment inner =>
    refine ⟨hc, fun y hy => ?_⟩
    rcases y with (d | f) | r
    · exact Diagnostic.Flat.escalate hy fun _ hf => hf
    · exact hy
    · exact hy
  | option inner =>
    refine ⟨hc, fun y hy => ?_⟩
    cases y with
    | ok r => exact hy
    | error d =>
      dsimp only
      split
      · exact hy
      · exact hc
  | repetition read inner =>
    refine ⟨hc, fun y hy => ?_⟩
    cases y with
    | ok r =>
      dsimp only
      split
      · exact hc
      · exact ⟨hy, trivial⟩
    | error d =>
      dsimp only
      split
      · exact hy
      · exact hc
  | first inner => exact ⟨hc, goOn_staysBehind fun _ => trivial⟩
  | list marks element =>
    have hinside : b.Leads (c.advance 1).skipSpace :=
      hc.trans ((c.leads_advance 1).trans (Cursor.leads_skipSpace _))
    rw [move]
    split
    · split
      · exact closing_staysBehind marks [] hinside
      · exact ⟨hinside, goOn_staysBehind fun _ => trivial⟩
    · exact (Diagnostic.expected_orderly hc _).flat_of_readFrom
  | elements read marks element =>
    rw [move]
    split
    · refine ⟨?_, goOn_staysBehind fun _ => trivial⟩
      exact hc.trans (c.leads_skipSpace.trans
        ((c.skipSpace.leads_advance 1).trans (Cursor.leads_skipSpace _)))
    · exact closing_staysBehind marks read hc

theorem start_staysBehind (e : ParserExpr) (b : Cursor) : e.start.StaysBehind b := by
  cases e with
  | alt => exact List.forall_mem_nil _
  | seq | committed | optional | many0 | many1 | list => trivial
  | _ => rfl

/-- A run keeps to the text from `b` on. -/
theorem Runs.staysBehind {l : List Application} {x : Answer} (h : Runs s c l x)
    (hs : s.StaysBehind b) (hc : b.Leads c) : x.StaysBehind b := by
  induction h with
  | ends hmove =>
    have hstep := Stage.move_staysBehind hs hc
    rwa [hmove] at hstep
  | last hmove _ hreply ih =>
    have hstep := Stage.move_staysBehind hs hc
    rw [hmove] at hstep
    have hend := hstep.2 _ (ih (start_staysBehind _ b) hstep.1)
    rwa [hreply] at hend
  | more hmove _ hreply _ ih ihrest =>
    have hstep := Stage.move_staysBehind hs hc
    rw [hmove] at hstep
    have hnext := hstep.2 _ (ih (start_staysBehind _ b) hstep.1)
    rw [hreply] at hnext
    exact ihrest hnext.2 hnext.1

end ParserExpr

end EventRules
