/-
# Blocks of clauses

A block is put together from clauses, each of which is accepted by its parser on its own. The block
is read as the conjunction of its matchers with its creators, in the order in which they are
written: nothing is dropped, read twice or moved.

A clause ends with a semicolon, which may be left out after a closing brace. Where it is left out
after anything else, the block fails at the end of that clause, and nothing else is tried. How a
clause ends is a matter of the form of its last matcher.
-/

import EventRules.Proofs.DerivedClause
import EventRules.Proofs.Layout
import EventRules.Proofs.WrittenStatement

namespace EventRules

/-! ### Clauses in a block -/

/-- A clause as it stands in a block: a text that the parser accepts, and the space before it. -/
structure Clause {α : Type} (p : Parser α) extends Parser.Accepted p where
  space : SpaceRun

/-- A clause with its end: the space before its semicolon, or no semicolon at all, which takes a
closing brace at the end of the clause. -/
structure EndedClause {α : Type} (p : Parser α) extends Clause p where
  ending : Option Text
  isSpace_ending : ∀ s ∈ ending, ∀ ch ∈ s, isSpace ch
  getLast?_text : ending = none → text.getLast? = some '}'

/-- A text after one space. -/
def Parser.Accepted.clause {α : Type} {p : Parser α} (k : Parser.Accepted p) : Clause p where
  toAccepted := k
  space := ⟨[' '], List.cons_ne_nil _ _, Parser.isSpace_of_mem_space⟩

/-- A clause with a semicolon right behind it. -/
def Clause.ended {α : Type} {p : Parser α} (k : Clause p) : EndedClause p where
  toClause := k
  ending := some []
  isSpace_ending := by simp
  getLast?_text := nofun

/-- A clause that is ended by its own brace. -/
def Clause.closed {α : Type} {p : Parser α} (k : Clause p) (h : k.text.getLast? = some '}') :
    EndedClause p where
  toClause := k
  ending := none
  isSpace_ending := nofun
  getLast?_text := fun _ => h

/-- The text of a clause with the space before it. -/
def Clause.written {α : Type} {p : Parser α} (k : Clause p) : Text :=
  k.space.text ++ k.text

/-- The text of a clause with the space before it and with its end. -/
def EndedClause.written {α : Type} {p : Parser α} (k : EndedClause p) : Text :=
  k.toClause.written ++ k.ending.elim [] (· ++ [';'])

theorem Clause.written_closed {α : Type} {p : Parser α} (k : Clause p)
    (h : k.text.getLast? = some '}') : (k.closed h).written = k.written :=
  List.append_nil _

/-- The start of a block, up to the end of its last clause. -/
def blockStart {p : Parser Matcher} {q : Parser Creator} (ms : List (EndedClause p))
    (fs : List (EndedClause q)) : Text :=
  "do" ++ ([' ', '{'] ++ (ms.flatMap (·.written) ++ fs.flatMap (·.written)))

/-! ### What follows a clause -/

namespace Text

variable {s u : Text}

/-- Space and a text that leaves the clause follow a clause. -/
theorem followsClause_spaced (w : SpaceRun) (hu : u.Starts leavesClause) :
    FollowsClause (w.text ++ u) :=
  followsClause_of_starts w.isSpace hu ((w.breaks_append u).stops (by decide))

/-- Neither space nor the mark behind it goes on with a name. -/
theorem stops_mark (hs : ∀ ch ∈ s, isSpace ch) {m : Char} (hm : isNameChar m = false) (v : Text) :
    Stops isNameChar (s ++ m :: v) := by
  have hsolid : Solid isNameChar := by decide
  cases s with
  | nil => exact stops_cons.2 hm
  | cons ch s => exact stops_cons.2 (hsolid.not_of_isSpace (hs ch (List.mem_cons_self ..)))

theorem dropWhile_mark (hs : ∀ ch ∈ s, isSpace ch) {m : Char} (hm : isSpace m = false) (v : Text) :
    (s ++ m :: v).dropWhile isSpace = m :: v :=
  dropWhile_append_of_stops hs (stops_cons.2 hm)

/-- The closing brace of a block follows a clause. -/
theorem followsClause_closing (hs : ∀ ch ∈ s, isSpace ch) (v : Text) :
    FollowsClause (s ++ '}' :: v) :=
  followsClause_of_starts hs (starts_cons.2 (by decide)) (stops_mark hs (by decide) v)

end Text

/-! ### Failing between two texts -/

namespace Parser

variable {α β : Type} {p : Parser α} {u v w : Text} {e : Expectation}

/-- At every cursor before `u` and then `v`, the parser fails between the two, where it expects
something else, and no other alternative may be tried. -/
def FailsBehind (p : Parser α) (u v : Text) (e : Expectation) : Prop :=
  ∀ ⦃c : Cursor⦄, c.inSource → c.rest = u ++ v →
    p.outcome c = .error (Diagnostic.expected (c.advance u.length) e).escalate

namespace FailsBehind

theorem of_eq {u' : Text} (hp : p.FailsBehind u v e) (h : u = u') : p.FailsBehind u' v e :=
  h ▸ hp

/-- What fails behind a text fails the sequence that starts with it. -/
protected theorem bind {f : α → Parser β} (hp : p.FailsBehind u v e) :
    (p >>= f).FailsBehind u v e := by
  intro c hc hrest
  rw [outcome_bind, hp hc hrest]
  rfl

/-- What fails behind a text that has been read fails behind both texts. -/
theorem after {f : α → Parser β} {Q : α → Prop} (hp : p.Reads u (w ++ v) Q)
    (hf : ∀ a, Q a → (f a).FailsBehind w v e) : (p >>= f).FailsBehind (u ++ w) v e := by
  intro c hc hrest
  obtain ⟨a, hok, ha⟩ := hp hc (by rw [hrest, List.append_assoc])
  have hnext : (c.advance u.length).rest = w ++ v := by
    rw [Cursor.rest_advance, hrest, List.append_assoc, List.drop_left]
  rw [outcome_bind, hok, ok_bind, hf a ha (c.inSource_advance _) hnext, Cursor.advance_advance,
    List.length_append]

protected theorem committed (hp : p.FailsBehind u v e) : (committed p).FailsBehind u v e := by
  intro c hc hrest
  rw [outcome_committed, hp hc hrest]
  rfl

protected theorem many0 (hp : p.FailsBehind u v e) : (many0 p).FailsBehind u v e := by
  intro c hc hrest
  rw [outcome_many0, hp hc hrest]
  rfl

/-- Behind an element that is read, a repetition fails as it fails there. -/
theorem many0_after {Q : α → Prop} (hu : u ≠ []) (hp : p.Reads u (w ++ v) Q)
    (hrepeat : (many0 p).FailsBehind w v e) : (many0 p).FailsBehind (u ++ w) v e := by
  intro c hc hrest
  rw [List.append_assoc] at hrest
  obtain ⟨a, hok, -⟩ := hp hc hrest
  have hnext : (c.advance u.length).rest = w ++ v := by
    rw [Cursor.rest_advance, hrest, List.drop_left]
  rw [outcome_many0, hok]
  dsimp only
  rw [if_pos (Cursor.remaining_advance_lt hc hrest hu), hrepeat (c.inSource_advance _) hnext,
    Cursor.advance_advance, List.length_append]
  rfl

end FailsBehind

end Parser

/-! ### Reading clauses -/

namespace Parser

/-- What a block has to know about the parser of its clauses: how clauses start, and that an
accepted text is read before all that may follow it. -/
structure ReadsClauses {α : Type} (p : Parser α) : Prop where
  opens : p.Opens leavesClause
  reads {t : Text} {a : α} {v : Text} (h : p.Accepts t a) (hv : v.Stops isNameChar)
    (hif : Text.Stops (· = 'i') (v.dropWhile isSpace)) : p.Reads t v (· = a)

theorem ReadsClauses.opens_solid {α : Type} {p : Parser α} (hp : p.ReadsClauses) :
    p.Opens fun ch => !isSpace ch := by
  refine hp.opens.mono fun ch hch => ?_
  simp only [leavesClause, Bool.not_eq_true', Bool.or_eq_false_iff] at hch ⊢
  exact hch.1.1

/-- Matchers after their keyword are clauses of a block. -/
theorem matchClause_readsClauses [NestingLimit] (scope : Scope) :
    (matchClause scope).ReadsClauses where
  opens := matchClause_opens.mono fun ch hch => by
    obtain rfl := of_decide_eq_true hch
    decide
  reads h hv _ := matchClause_portable.reads h hv

/-- Creators are clauses of a block. -/
theorem fireClause_readsClauses [NestingLimit] (scope : Scope) :
    (fireClause scope).ReadsClauses where
  opens := fireClause_opens.mono fun ch hch => by
    obtain rfl := of_decide_eq_true hch
    decide
  reads h hv hif := fireClause_reads_of_accepts h hv fun _ => hif

end Parser

namespace Clause

variable {α : Type} {p : Parser α} (hp : p.ReadsClauses) (k : Clause p) {v : Text}

include hp

/-- Before a clause only its space is skipped. -/
theorem dropWhile_written (v : Text) : (k.written ++ v).dropWhile isSpace = k.text ++ v := by
  rw [written, List.append_assoc]
  exact Text.dropWhile_append_of_stops k.space.isSpace
    (((k.starts hp.opens_solid).append v).stops (by simp))

/-- A clause may follow a clause. -/
theorem followsClause (v : Text) : Text.FollowsClause (k.written ++ v) := by
  rw [written, List.append_assoc]
  exact Text.followsClause_spaced k.space ((k.starts hp.opens).append v)

/-- A clause that is not ended fails where it ends, unless a closing brace ends it. -/
theorem failsBehind (hlast : k.text.getLast? ≠ some '}') (hv : v.FollowsClause) :
    (Parser.blockClause p).FailsBehind k.written v (.symbol ";") := by
  refine .after (Parser.skipSpace_reads k.space.isSpace
    (((k.starts hp.opens_solid).append v).stops (by simp))) fun _ _ => ?_
  intro c hc hrest
  obtain ⟨_, hok, rfl⟩ := hp.reads k.accepts hv.stops hv.noCondition hc hrest
  have hprevious : (c.advance k.text.length).previous? ≠ some '}' := by
    rwa [Cursor.previous?_advance (k.starts hp.opens).ne_nil hrest]
  have hpeek : (c.advance k.text.length).skipSpace.peek ≠ ";" :=
    hv.noSemicolon.peek_ne (by rw [Cursor.rest_advance, hrest, List.drop_left])
  rw [Parser.outcome_bind, hok, ok_bind, Parser.outcome_bind, Parser.outcome_committed,
    Parser.outcome_clauseTerminator, if_neg hprevious, Parser.outcome_terminator, if_neg hpeek]
  rfl

omit hp in
/-- After space, the clause of a creator starts as no clause for a matcher does. -/
theorem starts_fire [NestingLimit] {scope : Scope} (k : Clause (Parser.fireClause scope))
    (v : Text) :
    Text.Starts (fun ch => ch = 'f' || ch = '}') ((k.written ++ v).dropWhile isSpace) := by
  have hopens : (Parser.fireClause scope).Opens fun ch => ch = 'f' || ch = '}' :=
    Parser.fireClause_opens.mono fun ch hch => by simp [of_decide_eq_true hch]
  rw [k.dropWhile_written (Parser.fireClause_readsClauses scope)]
  exact (k.starts hopens).append v

end Clause

namespace EndedClause

variable {α : Type} {p : Parser α} (k : EndedClause p) {v : Text}

theorem written_ne_nil : k.written ≠ [] := by
  rw [written, Clause.written]
  simp [k.space.ne_nil]

/-- A clause ends with a semicolon, or with the brace of its text. -/
theorem endsClause (hv : v.NoSemicolon) :
    k.text.EndsClause v (k.ending.elim [] (· ++ [';'])) := by
  cases hending : k.ending with
  | none => exact .brace (k.getLast?_text hending) hv
  | some s => exact .semicolon (k.isSpace_ending s hending)

theorem followsClause (hp : p.ReadsClauses) (v : Text) : Text.FollowsClause (k.written ++ v) := by
  rw [written, List.append_assoc]
  exact k.toClause.followsClause hp _

/-- A clause in a block is read as its text is read alone. -/
theorem reads (hp : p.ReadsClauses) (hv : v.FollowsClause) :
    (Parser.blockClause p).Reads k.written v (· = k.value) := by
  have hnext : Text.Stops isNameChar (k.ending.elim [] (· ++ [';']) ++ v) ∧
      Text.Stops (· = 'i') ((k.ending.elim [] (· ++ [';']) ++ v).dropWhile isSpace) := by
    cases hending : k.ending with
    | none => exact ⟨hv.stops, hv.noCondition⟩
    | some s =>
      have hs := k.isSpace_ending s hending
      rw [Option.elim_some, List.append_assoc]
      refine ⟨Text.stops_mark hs (by decide) v, ?_⟩
      rw [List.singleton_append, Text.dropWhile_mark hs (by decide)]
      exact Text.stops_cons.2 (by decide)
  refine .of_eq (Parser.blockClause_reads k.space.isSpace (k.starts hp.opens_solid)
    (hp.reads k.accepts hnext.1 hnext.2) (k.endsClause hv.noSemicolon)) ?_
  rw [written, Clause.written, List.append_assoc]

end EndedClause

namespace Parser

variable {α : Type} {p : Parser α} {v : Text}

/-- Further clauses follow a clause. -/
theorem followsClause_clauses (hp : p.ReadsClauses) (ks : List (EndedClause p))
    (hv : v.FollowsClause) : Text.FollowsClause (ks.flatMap (·.written) ++ v) :=
  Text.of_flatMap_append (fun k _ => k.followsClause hp) hv

/-- Clauses one after the other are read in this order, up to a text that is no further clause. -/
theorem many0_reads_clauses (hp : p.ReadsClauses) (ks : List (EndedClause p))
    (hv : v.FollowsClause) (hend : (blockClause p).Rejects v) :
    (many0 (blockClause p)).Reads (ks.flatMap (·.written)) v (· = ks.map (·.value)) :=
  .many0_flatMap (fun k _ => k.written_ne_nil) (fun k _ _ => k.reads hp)
    (fun k _ => k.followsClause hp) hv hend

/-- At least one clause is read, and all of them in this order. -/
theorem many1_reads_clauses (hp : p.ReadsClauses) (k : EndedClause p) (ks : List (EndedClause p))
    (hv : v.FollowsClause) (hend : (blockClause p).Rejects v) :
    (many1 (blockClause p)).Reads ((k :: ks).flatMap (·.written)) v
      (· = (k :: ks).map (·.value)) := by
  refine .bind (k.reads hp (followsClause_clauses hp ks hv)) ?_
  rintro _ rfl
  refine .of_eq (.bind (w := []) (many0_reads_clauses hp ks hv hend) ?_) (List.append_nil _)
  rintro _ rfl
  exact .pure rfl

/-- Behind clauses that are read, a repetition fails as a further clause does. -/
theorem many0_failsBehind_clauses {w : Text} {e : Expectation} (hp : p.ReadsClauses)
    (ks : List (EndedClause p)) (hw : Text.FollowsClause (w ++ v))
    (hfail : (blockClause p).FailsBehind w v e) :
    (many0 (blockClause p)).FailsBehind (ks.flatMap (·.written) ++ w) v e := by
  induction ks with
  | nil => exact hfail.many0
  | cons k ks ih =>
    rw [List.flatMap_cons, List.append_assoc]
    refine .many0_after k.written_ne_nil (k.reads hp ?_) ih
    rw [List.append_assoc]
    exact followsClause_clauses hp ks hw

/-- Behind clauses that are read, a repetition of at least one fails as a further clause does. -/
theorem many1_failsBehind_clauses {w : Text} {e : Expectation} (hp : p.ReadsClauses)
    (ks : List (EndedClause p)) (hw : Text.FollowsClause (w ++ v))
    (hfail : (blockClause p).FailsBehind w v e) :
    (many1 (blockClause p)).FailsBehind (ks.flatMap (·.written) ++ w) v e := by
  cases ks with
  | nil => exact hfail.bind
  | cons k ks =>
    rw [List.flatMap_cons, List.append_assoc]
    refine .after (k.reads hp ?_) fun _ _ => (many0_failsBehind_clauses hp ks hw hfail).bind
    rw [List.append_assoc]
    exact followsClause_clauses hp ks hw

/-! ### Blocks -/

section Blocks

variable [NestingLimit] {scope : Scope}

/-- The clauses for matchers end where, after space, a creator or the closing brace stands. -/
theorem matchClauses_rejected (fs : List (EndedClause (fireClause scope))) {r : Text}
    (hr : Text.Starts (fun ch => ch = 'f' || ch = '}') (r.dropWhile isSpace)) :
    (blockClause (matchClause scope)).Rejects (fs.flatMap (·.written) ++ r) := by
  have hstarts : Text.Starts (fun ch => ch = 'f' || ch = '}')
      ((fs.flatMap (·.written) ++ r).dropWhile isSpace) := by
    refine Text.of_flatMap_append (P := fun r => Text.Starts _ (r.dropWhile isSpace))
      (fun k _ w => ?_) hr
    rw [EndedClause.written, List.append_assoc]
    exact k.toClause.starts_fire _
  exact blockClause_rejects (keyword_rejects_of_stops rfl (hstarts.stops fun ch hch => by
    simp only [Bool.or_eq_true, decide_eq_true_iff] at hch
    rcases hch with rfl | rfl <;> decide)).bind

/-- A block is read as the conjunction of its matchers with its creators. -/
theorem doStatement_reads_clauses (m : EndedClause (matchClause scope))
    (ms : List (EndedClause (matchClause scope))) (fs : List (EndedClause (fireClause scope)))
    {s : Text} (hs : ∀ ch ∈ s, isSpace ch) (hv : v.NoSemicolon) :
    (doStatement scope).Reads (blockStart (m :: ms) fs ++ (s ++ ['}'])) v
      (· = ⟨.conjoin m.value (ms.map (·.value)), fs.map (·.value)⟩) := by
  have hclosing : Text.FollowsClause (s ++ ['}'] ++ v) := by
    rw [List.append_assoc]
    exact Text.followsClause_closing hs v
  have hdrop : (s ++ ['}'] ++ v).dropWhile isSpace = '}' :: v := by
    rw [List.append_assoc]
    exact Text.dropWhile_mark hs (by decide) v
  -- the first loop ends before a creator or before the brace, the second one before the brace
  have hmatch := many1_reads_clauses (matchClause_readsClauses scope) m ms
    (followsClause_clauses (fireClause_readsClauses scope) fs hclosing)
    (matchClauses_rejected fs (hdrop ▸ Text.starts_cons.2 (by decide)))
  have hfire := many0_reads_clauses (fireClause_readsClauses scope) fs hclosing
    (blockClause_rejects (keyword_rejects_of_stops rfl
      (hdrop ▸ Text.stops_cons.2 (by decide))).bind)
  rw [← List.append_assoc] at hmatch
  rw [blockStart, List.append_assoc, List.append_assoc, List.append_assoc]
  refine .bind (keyword_reads _ (Text.stops_cons.2 (by decide))) fun _ _ => ?_
  refine .of_eq (.bind (w := []) (Q := (· = ((m :: ms).map (·.value), fs.map (·.value))))
    (.committed ?_) ?_) (List.append_nil _)
  · refine .bind openingBrace_reads fun _ _ => .bind hmatch ?_
    rintro _ rfl
    refine .bind hfire ?_
    rintro _ rfl
    exact blockEnd_reads (_, _) hs hv
  · rintro _ rfl
    exact .bind (u := []) (.note _) fun _ _ => .pure rfl

/-- Whatever fails behind the opening brace fails the block. -/
theorem doStatement_failsBehind {w : Text} {e : Expectation}
    (h : (do
      let matchers ← many1 (blockClause (matchClause scope))
      let creators ← many0 (blockClause (fireClause scope))
      nextSymbol "\x7d"
      clauseTerminator
      return (matchers, creators) : Parser _).FailsBehind w v e) :
    (doStatement scope).FailsBehind ("do" ++ ([' ', '{'] ++ w)) v e := by
  refine .after (keyword_reads _ (Text.stops_cons.2 (by decide))) fun _ _ => ?_
  exact (FailsBehind.committed (.after openingBrace_reads fun _ _ => h)).bind

/-- A matcher without a semicolon fails the block at the end of the matcher, whatever matchers stand
before it. -/
theorem doStatement_failsBehind_match (ms : List (EndedClause (matchClause scope)))
    {k : Clause (matchClause scope)} (hlast : k.text.getLast? ≠ some '}')
    (hv : v.FollowsClause) :
    (doStatement scope).FailsBehind
      (blockStart ms ([] : List (EndedClause (fireClause scope))) ++ k.written) v
      (.symbol ";") := by
  have hp := matchClause_readsClauses scope
  refine .of_eq (doStatement_failsBehind (many1_failsBehind_clauses hp ms
    (k.followsClause hp v) (k.failsBehind hp hlast hv)).bind) ?_
  simp only [blockStart, List.flatMap_nil, List.append_nil, List.append_assoc]

/-- A creator without a semicolon fails the block at the end of the creator, whatever clauses stand
before it. -/
theorem doStatement_failsBehind_fire (m : EndedClause (matchClause scope))
    (ms : List (EndedClause (matchClause scope))) (fs : List (EndedClause (fireClause scope)))
    {k : Clause (fireClause scope)} (hlast : k.text.getLast? ≠ some '}')
    (hv : v.FollowsClause) :
    (doStatement scope).FailsBehind (blockStart (m :: ms) fs ++ k.written) v (.symbol ";") := by
  have hp := fireClause_readsClauses scope
  have hmatch := many1_reads_clauses (matchClause_readsClauses scope) m ms
    (followsClause_clauses hp fs (k.followsClause hp v))
    (matchClauses_rejected fs (k.starts_fire v))
  rw [← List.append_assoc] at hmatch
  refine .of_eq (doStatement_failsBehind (.after hmatch fun _ _ =>
    (many0_failsBehind_clauses hp fs (k.followsClause hp v)
      (k.failsBehind hp hlast hv)).bind)) ?_
  simp only [blockStart, List.append_assoc]

/-- A block is put together from clauses that are accepted one by one. It is the conjunction of its
matchers with its creators, all in the order in which they are written; where a semicolon is left
out after a clause that does not end with a brace, the block fails at the end of that clause; and a
clause ends with a brace exactly if the form of its last matcher does or it has none. -/
theorem doStatement_assembles_clauses (scope : Scope)
    (ms : List (EndedClause (matchClause scope))) (fs : List (EndedClause (fireClause scope))) :
    (ms ≠ [] → ∀ s v : Text, (∀ ch ∈ s, isSpace ch) → v.NoSemicolon →
      ∃ m, Matcher.conjoinAll (ms.map (·.value)) = .ok m ∧
        (doStatement scope).Reads (blockStart ms fs ++ (s ++ ['}'])) v
          (· = ⟨m, fs.map (·.value)⟩)) ∧
    (∀ (w : SpaceRun) (next : Text), next.Starts leavesClause →
      (∀ k : Clause (matchClause scope), k.text.getLast? ≠ some '}' →
        (doStatement scope).FailsBehind
          (blockStart ms ([] : List (EndedClause (fireClause scope))) ++ k.written)
          (w.text ++ next) (.symbol ";")) ∧
      (ms ≠ [] → ∀ k : Clause (fireClause scope), k.text.getLast? ≠ some '}' →
        (doStatement scope).FailsBehind (blockStart ms fs ++ k.written)
          (w.text ++ next) (.symbol ";"))) ∧
    (∀ k : Clause (matchClause scope), EndsByForm scope k.text k.value) ∧
    (∀ k : Clause (fireClause scope),
      (k.value.guard = none → k.text.getLast? = some '}') ∧
        ∀ m ∈ k.value.guard, EndsByForm scope k.text m) := by
  refine ⟨fun hms s v hs hv => ?_, fun w next hnext => ⟨fun k hlast => ?_, fun hms k hlast => ?_⟩,
    fun k => endsByForm_matchClause k.accepts,
    fun k => ⟨getLast?_fireClause k.accepts, fun m => endsByForm_fireClause k.accepts⟩⟩
  · obtain ⟨m, ms, rfl⟩ := List.exists_cons_of_ne_nil hms
    exact ⟨_, rfl, doStatement_reads_clauses m ms fs hs hv⟩
  · exact doStatement_failsBehind_match ms hlast (Text.followsClause_spaced w hnext)
  · obtain ⟨m, ms, rfl⟩ := List.exists_cons_of_ne_nil hms
    exact doStatement_failsBehind_fire m ms fs hlast (Text.followsClause_spaced w hnext)

end Blocks

/-- The clause `match tick`. -/
def tickClause : Accepted (matchClause ({} : Scope)) where
  text := "match tick"
  value := .eventCode EventCode.internalSystemTick
  accepts := matchClause_portable.accepts rfl

/-- The clause `match event 3~u16`. -/
def eventClause : Accepted (matchClause ({} : Scope)) where
  text := "match event 3~u16"
  value := .eventCode 3
  accepts := matchClause_portable.accepts rfl

/-- The clause of a creator that sends nothing. -/
def silentClause : Accepted (fireClause ({} : Scope)) where
  text := Creator.written ⟨.nothing, ⟨.nothing, .nil⟩, none⟩
  value := ⟨.nothing, ⟨.nothing, .nil⟩, none⟩
  accepts :=
    have hclear : (Table.empty : Table Text Literal).SparesBooleans := fun _ => rfl
    Reads.accepts (fireClause_reads hclear (by decide) nofun (Text.stops_nil _))

/-- Clauses that need a semicolon and have one, a clause that needs none, and a clause that needs
one and has none. The conjunction nests to the left, in the order of the clauses. -/
theorem doStatement_assembles_ticks :
    let tick := Matcher.eventCode 10
    let event := Matcher.eventCode 3
    (doStatement ({} : Scope)).Reads
        ("do \x7b match event 3~u16; match tick; match event 3~u16;" ++
          (' ' :: silentClause.text ++ " \x7d")) []
        (· = ⟨.and (.and event tick) event, [silentClause.value]⟩) ∧
      (doStatement ({} : Scope)).FailsBehind
        "do \x7b match event 3~u16; match tick; match event 3~u16; match tick" " \x7d"
        (.symbol ";") := by
  intro tick event
  obtain ⟨hreads, hfails, -⟩ :=
    doStatement_assembles_clauses {}
      [eventClause.clause.ended, tickClause.clause.ended, eventClause.clause.ended]
      [silentClause.clause.closed (Creator.getLast?_written _)]
  obtain ⟨m, hm, hblock⟩ := hreads (List.cons_ne_nil _ _) " " [] (by decide) nofun
  cases hm
  refine ⟨hblock.of_eq (by decide +kernel), ?_⟩
  exact ((hfails ⟨" ", by decide, by decide⟩ "\x7d" (Text.starts_cons.2 (by decide))).1
    tickClause.clause (by decide +kernel)).of_eq (by decide +kernel)

end Parser

end EventRules
