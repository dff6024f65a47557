/-
# Written statements

How statements are written out: declarations with literals, and every rule as a `do` block with one
`match` clause and a `fire` clause for each creator. A written statement is read back as it was,
apart from the places that it remembers.
-/

import EventRules.Proofs.Declare
import EventRules.Proofs.Written

namespace EventRules

/-! ### The end of a clause -/

/-- No semicolon follows, neither at once nor after space. -/
def Text.NoSemicolon (t : Text) : Prop :=
  Stops (· = ';') (t.dropWhile isSpace)

/-- Where no semicolon comes next, none is taken. -/
theorem Text.NoSemicolon.peek_ne {v : Text} (h : v.NoSemicolon) {c : Cursor} (hrest : c.rest = v) :
    c.skipSpace.peek ≠ ";" := by
  rw [Cursor.peek, Cursor.rest_skipSpace, hrest]
  cases hdrop : v.dropWhile isSpace with
  | nil => decide
  | cons ch t =>
    rw [NoSemicolon, hdrop, stops_cons, decide_eq_false_iff_not] at h
    intro heq
    exact h (List.cons.inj heq).1

/-- What ends a clause with the text `u` before the text `v`: a semicolon, after space if there is
any, or nothing at all if the clause ends with a closing brace and no semicolon follows. -/
inductive Text.EndsClause (u v : Text) : Text → Prop
  | semicolon {s : Text} (hs : ∀ ch ∈ s, isSpace ch) : EndsClause u v (s ++ [';'])
  | brace (hlast : u.getLast? = some '}') (hv : v.NoSemicolon) : EndsClause u v []

/-! ### What follows a clause -/

/-- A character that, after space, belongs neither to the clause before it nor to its end. -/
def leavesClause (ch : Char) : Bool :=
  !(isSpace ch || ch = ';' || ch = 'i')

/-- What may follow a clause: no name goes on, and after space comes neither a semicolon nor the
start of a condition. -/
structure Text.FollowsClause (v : Text) : Prop where
  stops : v.Stops isNameChar
  noSemicolon : v.NoSemicolon
  noCondition : Stops (· = 'i') (v.dropWhile isSpace)

namespace Text

variable {s u : Text}

theorem followsClause_of_starts (hs : ∀ ch ∈ s, isSpace ch) (hu : u.Starts leavesClause)
    (hstops : Stops isNameChar (s ++ u)) : FollowsClause (s ++ u) := by
  have hsolid : u.Stops isSpace := hu.stops fun ch hch => by
    simp only [leavesClause, Bool.not_eq_true', Bool.or_eq_false_iff] at hch
    exact hch.1.1
  have hdrop := dropWhile_append_of_stops hs hsolid
  refine ⟨hstops, ?_, ?_⟩
  · rw [NoSemicolon, hdrop]
    exact hu.stops fun ch hch => by simp_all [leavesClause]
  · rw [hdrop]
    exact hu.stops fun ch hch => by simp_all [leavesClause]

theorem followsClause_space (hu : u.Starts leavesClause) : FollowsClause (' ' :: u) :=
  followsClause_of_starts (s := [' ']) Parser.isSpace_of_mem_space hu (stops_cons.2 (by decide))

end Text

namespace Parser

variable {α : Type} {p : Parser α} {Q : α → Prop} {u v e : Text}

/-- Behind the text of a clause, its end is read. -/
theorem clauseTerminator_outcome {c : Cursor} (hrest : c.rest = u ++ (e ++ v))
    (he : u.EndsClause v e) :
    clauseTerminator.outcome (c.advance u.length) = .ok ((), c.advance (u ++ e).length) := by
  have hbehind : (c.advance u.length).rest = e ++ v := by
    rw [Cursor.rest_advance, hrest, List.drop_left]
  rw [outcome_clauseTerminator, List.length_append, ← Cursor.advance_advance]
  cases he with
  | @semicolon s hs =>
    rw [List.append_assoc] at hbehind
    have hskip : (c.advance u.length).skipSpace = (c.advance u.length).advance s.length :=
      Cursor.skipSpace_of_rest hbehind hs (Text.stops_cons.2 (by decide))
    have hpeek : (c.advance u.length).skipSpace.peek = ";" := by
      rw [hskip, Cursor.peek, Cursor.rest_advance, hbehind, List.drop_left]
      rfl
    rw [outcome_terminator, if_pos hpeek, if_pos hpeek, ite_self, hskip, Cursor.advance_advance,
      List.length_append]
    rfl
  | brace hlast hv =>
    rw [List.nil_append] at hrest hbehind
    have hne : u ≠ [] := by
      rintro rfl
      cases hlast
    rw [if_pos ((Cursor.previous?_advance hne hrest).trans hlast), if_neg (hv.peek_ne hbehind),
      List.length_nil, Cursor.advance_zero (c.inSource_advance _)]

/-- A clause in a block is read with the space before it and with its end. -/
theorem blockClause_reads {clause : Parser α} {s : Text} (hs : ∀ ch ∈ s, isSpace ch)
    (hu : u.Starts fun c => !isSpace c) (hclause : clause.Reads u (e ++ v) Q)
    (he : u.EndsClause v e) : (blockClause clause).Reads (s ++ (u ++ e)) v Q := by
  refine .bind (skipSpace_reads hs (((hu.append e).append v).stops (by simp))) fun _ _ => ?_
  intro c hc hrest
  rw [List.append_assoc] at hrest
  obtain ⟨a, hok, ha⟩ := hclause hc hrest
  refine ⟨a, ?_, ha⟩
  rw [outcome_bind, hok, ok_bind, outcome_bind, outcome_committed,
    clauseTerminator_outcome hrest he]
  rfl

/-- A clause that its closing brace ends. -/
theorem blockClause_reads_brace {clause : Parser α} (hu : u.Starts fun c => !isSpace c)
    (hclause : clause.Reads u v Q) (hlast : u.getLast? = some '}') (hv : v.NoSemicolon) :
    (blockClause clause).Reads (' ' :: u) v Q := by
  refine .of_eq (blockClause_reads (e := []) isSpace_of_mem_space hu hclause (.brace hlast hv)) ?_
  rw [List.append_nil]
  rfl

/-- A clause that is missing after space is passed over. -/
theorem blockClause_rejects {clause : Parser α} (h : clause.Rejects (v.dropWhile isSpace)) :
    (blockClause clause).Rejects v := by
  intro c hc hrest
  obtain ⟨d, herror, hfatal⟩ := h c.inSource_skipSpace (by rw [Cursor.rest_skipSpace, hrest])
  refine ⟨d, ?_, hfatal⟩
  rw [blockClause, outcome_bind, outcome_skipSpace, ok_bind, outcome_bind, herror]
  rfl

/-- A keyword after space is rejected where, after space or at once, another character stands. -/
theorem nextKeyword_rejects {word : Text} {ch : Char} (hword : word.head? = some ch)
    (h : Text.Stops (· = ch) (v.dropWhile isSpace)) : (nextKeyword word).Rejects v := by
  intro c hc hrest
  rw [outcome_nextKeyword, outcome_space]
  split
  · exact ⟨_, rfl, rfl⟩
  · exact keyword_rejects_of_stops hword h c.inSource_skipSpace
      (by rw [Cursor.rest_skipSpace, hrest])

end Parser

/-! ### Rules -/

/-- A matcher after the keyword of its clause. -/
def Matcher.clause (m : Matcher) : Text :=
  "match" ++ ' ' :: m.written

/-- A creator as it is written: its items in braces, and its guard if it has one. -/
def Creator.written (c : Creator) : Text :=
  "fire" ++ ([' ', '{'] ++ ' ' :: (c.extractor.written ++ ' ' :: (c.producer.written ++
    ([' ', '}'] ++
      match c.guard with
      | none => []
      | some m => [' '] ++ "if" ++ ' ' :: m.clause))))

/-- A rule as it is written: a block with a clause for its matcher and one for each creator. -/
def EventProcessor.written (p : EventProcessor) : Text :=
  "do" ++ ([' ', '{'] ++ (' ' :: p.matcher.clause ++
    (p.creators.flatMap (' ' :: ·.written) ++ [' ', '}'])))

/-- The matcher of a rule and the guards of its creators are nested in at most so many levels. -/
def EventProcessor.Within (levels : Nat) (p : EventProcessor) : Prop :=
  p.matcher.depth ≤ levels ∧ ∀ c ∈ p.creators, ∀ m, c.guard = some m → m.depth ≤ levels

instance (levels : Nat) (p : EventProcessor) : Decidable (p.Within levels) :=
  inferInstanceAs (Decidable (_ ∧ ∀ c ∈ p.creators, ∀ m, c.guard = some m → m.depth ≤ levels))

theorem Matcher.getLast?_clause (m : Matcher) : m.clause.getLast? = some '}' :=
  Text.getLast?_append_of_eq (Text.getLast?_cons_of_eq m.getLast?_written)

theorem Creator.getLast?_written (c : Creator) : c.written.getLast? = some '}' := by
  refine Text.getLast?_append_of_eq (Text.getLast?_append_of_eq (Text.getLast?_cons_of_eq
    (Text.getLast?_append_of_eq (Text.getLast?_cons_of_eq (Text.getLast?_append_of_eq ?_)))))
  cases c.guard with
  | none => rfl
  | some m =>
    exact Text.getLast?_append_of_eq (Text.getLast?_append_of_eq
      (Text.getLast?_cons_of_eq m.getLast?_clause))

namespace Parser

variable {constants : Table Text Literal} {v : Text}

/-- A keyword between spaces is read before what does not start with space. -/
theorem nextKeyword_reads {word : Text} (hword : word.IsName) {u : Text} (hu : u.Stops isNameChar) :
    (nextKeyword word).Reads ([' '] ++ word) u fun _ => True :=
  .bind (space_reads (by decide) isSpace_of_mem_space
    ((hword.1.append u).stops not_isSpace_of_isNameStart)) fun _ _ => keyword_reads _ hu

/-- The clause of a creator may follow a clause. -/
theorem followsClause_creator (c : Creator) (v : Text) :
    Text.FollowsClause (' ' :: c.written ++ v) :=
  Text.followsClause_space (Text.starts_cons.2 (by decide))

/-- The end of a block is its brace, with a semicolon or without. -/
theorem blockEnd_reads {α : Type} (a : α) {s : Text} (hs : ∀ ch ∈ s, isSpace ch)
    (hv : v.NoSemicolon) :
    (do nextSymbol "\x7d"; clauseTerminator; return a : Parser α).Reads (s ++ ['}']) v (· = a) := by
  intro c hc hrest
  have hbrace : (nextSymbol "\x7d").Reads (s ++ ['}']) v fun _ => True :=
    nextSymbol_reads hs (by decide)
  obtain ⟨_, hok, -⟩ := hbrace hc hrest
  have hend := clauseTerminator_outcome (e := []) hrest (.brace List.getLast?_concat hv)
  rw [List.append_nil] at hend
  refine ⟨a, ?_, rfl⟩
  rw [outcome_bind, hok, ok_bind, outcome_bind, hend]
  rfl

variable [NestingLimit]

/-- A matcher after its keyword and one space. -/
theorem matchClause_reads_matcher {u : Text} {m : Matcher} (hu : u.Starts fun c => !isSpace c)
    (h : (matcher constants).Reads u v (· = m)) :
    (matchClause constants).Reads ("match" ++ ' ' :: u) v (· = m) :=
  .bind (keyword_reads _ (Text.stops_cons.2 (by decide))) fun _ _ => .committed <|
    .bind (u := [' ']) (skipSpace_reads isSpace_of_mem_space
      ((hu.append v).stops (by simp))) fun _ _ => h

/-- The clause of a matcher is read as the matcher. -/
theorem matchClause_reads (hclear : constants.SparesBooleans) {m : Matcher}
    (hm : m.Fits Width.size) (hdepth : m.depth ≤ NestingLimit.levels) :
    (matchClause constants).Reads m.clause v (· = m) :=
  matchClause_reads_matcher m.starts_written (matcherIn_reads hclear hm hdepth)

/-- Where no `i` comes next, there is no condition. -/
theorem condition_reads_none (h : Text.Stops (· = 'i') (v.dropWhile isSpace)) :
    (condition constants).Reads [] v (· = none) := by
  refine .bind (u := []) (.optional_none (nextKeyword_rejects rfl h)) ?_
  rintro _ rfl
  exact .pure rfl

/-- A condition is read as its matcher. -/
theorem condition_reads_some {u : Text} {m : Matcher}
    (h : (matchClause constants).Reads ("match" ++ u) v (· = m)) :
    (condition constants).Reads ([' '] ++ "if" ++ ' ' :: ("match" ++ u)) v (· = some m) := by
  refine .bind (nextKeyword_reads (by decide) (Text.stops_cons.2 (by decide))).optional ?_
  rintro _ ⟨_, rfl, -⟩
  refine .committed (.bind (u := [' ']) (space_reads (by decide) isSpace_of_mem_space
    (Text.stops_cons.2 (by decide))) fun _ _ => ?_)
  exact .of_eq (.bind (w := []) h fun _ h => .pure (by rw [h])) (List.append_nil _)

/-- A creator is read from its items, which start with their names, and its guard. -/
theorem fireClause_reads_items {c : Creator} {extractor producer guard : Text}
    (hextractor : ∀ v, (optionalExtractor constants).Reads extractor v (· = c.extractor))
    (hstarts : extractor.Starts isNameStart)
    (hproducer : ∀ v, (producerCall constants).Reads producer v (· = c.producer))
    (hstarts' : producer.Starts isNameStart)
    (hguard : (condition constants).Reads guard v (· = c.guard)) :
    (fireClause constants).Reads ("fire" ++ ([' ', '{'] ++ ' ' :: (extractor ++ ' ' ::
      (producer ++ ([' ', '}'] ++ guard))))) v (· = c) := by
  refine .bind (keyword_reads _ (Text.stops_cons.2 (by decide))) fun _ _ => .committed ?_
  refine .bind openingBrace_reads fun _ _ =>
    .bind (u := [' ']) (oneSpace_reads hstarts not_isSpace_of_isNameStart _) fun _ _ =>
      .bind (hextractor _) ?_
  rintro _ rfl
  refine .bind (u := [' ']) (oneSpace_reads hstarts' not_isSpace_of_isNameStart _)
    fun _ _ => .bind (hproducer _) ?_
  rintro _ rfl
  refine .bind closingBrace_reads fun _ _ => .of_eq (.bind (w := []) hguard ?_) (List.append_nil _)
  rintro _ rfl
  exact .pure rfl

/-- The text of a creator is read as the creator, where nothing that follows may be taken for its
condition. -/
theorem fireClause_reads (hclear : constants.SparesBooleans) {c : Creator}
    (hc : c.Fits Width.size) (hdepth : ∀ m, c.guard = some m → m.depth ≤ NestingLimit.levels)
    (hv : Text.Stops (· = 'i') (v.dropWhile isSpace)) :
    (fireClause constants).Reads c.written v (· = c) := by
  obtain ⟨e, p, guard⟩ := c
  obtain ⟨he, hp, hguard⟩ := hc
  refine fireClause_reads_items (fun _ => optionalExtractor_reads hclear he) e.starts_written
    (fun _ => itemCall_reads hclear hp) p.starts_written ?_
  cases guard with
  | none =>
    exact condition_reads_none hv
  | some m =>
    exact condition_reads_some (matchClause_reads hclear (hguard m rfl) (hdepth m rfl))

/-- Creators one after the other are read back up to the closing brace of their block. -/
theorem fireClauses_read (hclear : constants.SparesBooleans) {cs : List Creator}
    (hcs : ∀ c ∈ cs, c.Fits Width.size)
    (hdepth : ∀ c ∈ cs, ∀ m, c.guard = some m → m.depth ≤ NestingLimit.levels) :
    (many0 (blockClause (fireClause constants))).Reads (cs.flatMap (' ' :: ·.written))
      ([' ', '}'] ++ v) (· = cs) := by
  have hread : ∀ c ∈ cs, ∀ w : Text, w.FollowsClause →
      (blockClause (fireClause constants)).Reads (' ' :: c.written) w (· = id c) :=
    fun c hc w hw => blockClause_reads_brace (Text.starts_cons.2 (by decide))
      (fireClause_reads hclear (hcs c hc) (hdepth c hc) hw.noCondition) c.getLast?_written
      hw.noSemicolon
  have hclosing : Text.FollowsClause ([' ', '}'] ++ v) :=
    Text.followsClause_space (Text.starts_cons.2 (by decide))
  have hend : (blockClause (fireClause constants)).Rejects ([' ', '}'] ++ v) :=
    blockClause_rejects (keyword_rejects_of_stops rfl (Text.stops_cons.2 (by decide))).bind
  have hreads := Reads.many0_flatMap (fun c _ => List.cons_ne_nil _ _) hread
    (fun c _ => followsClause_creator c) hclosing hend
  rw [List.map_id] at hreads
  exact hreads

/-- One clause for a matcher is read back where no further one follows. -/
theorem matchClauses_read (hclear : constants.SparesBooleans) {m : Matcher}
    (hm : m.Fits Width.size) (hdepth : m.depth ≤ NestingLimit.levels)
    (hmatch : Text.Stops (· = 'm') (v.dropWhile isSpace)) (hv : v.NoSemicolon) :
    (many1 (blockClause (matchClause constants))).Reads (' ' :: m.clause) v (· = [m]) := by
  refine .of_eq (.bind (w := []) (blockClause_reads_brace (Text.starts_cons.2 (by decide))
    (matchClause_reads hclear hm hdepth) m.getLast?_clause hv) ?_) (List.append_nil _)
  rintro _ rfl
  refine .bind (u := []) (.many0_nil (blockClause_rejects
    (keyword_rejects_of_stops rfl hmatch).bind)) ?_
  rintro _ rfl
  exact .pure rfl

/-- A written rule is read back, unless a semicolon follows, which would belong to it. -/
theorem doStatement_reads (hclear : constants.SparesBooleans) {p : EventProcessor}
    (hp : p.Fits Width.size) (hdepth : p.Within NestingLimit.levels) (hv : v.NoSemicolon) :
    (doStatement constants).Reads p.written v (· = p) := by
  obtain ⟨m, cs⟩ := p
  have hfollows : Text.FollowsClause (cs.flatMap (' ' :: ·.written) ++ ([' ', '}'] ++ v)) :=
    Text.of_flatMap_append (fun c _ => followsClause_creator c)
      (Text.followsClause_space (Text.starts_cons.2 (by decide)))
  have hmatch : Text.Stops (· = 'm')
      ((cs.flatMap (' ' :: ·.written) ++ ([' ', '}'] ++ v)).dropWhile isSpace) :=
    Text.of_flatMap_append (P := fun r => Text.Stops (· = 'm') (r.dropWhile isSpace))
      (fun c _ w => Text.stops_cons.2 (by decide)) (Text.stops_cons.2 (by decide))
  rw [← List.append_assoc] at hfollows hmatch
  refine .bind (keyword_reads _ (Text.stops_cons.2 (by decide))) fun _ _ => ?_
  refine .of_eq (.bind (w := []) (Q := (· = ([m], cs))) (.committed ?_) ?_) (List.append_nil _)
  · refine .bind openingBrace_reads fun _ _ =>
      .bind (matchClauses_read hclear hp.1 hdepth.1 hmatch hfollows.noSemicolon) ?_
    rintro _ rfl
    refine .bind (fireClauses_read hclear hp.2 hdepth.2) ?_
    rintro _ rfl
    exact blockEnd_reads ([m], _) isSpace_of_mem_space hv
  · rintro _ rfl
    exact .bind (u := []) (.note _) fun _ _ => .pure rfl

end Parser

/-! ### Declarations -/

/-- A name, an equals sign and a literal after a keyword. -/
def Literal.bindingText (word name : Text) (l : Literal) : Text :=
  word ++ ' ' :: (name ++ ([' ', '='] ++ ' ' :: (l.text ++ [';'])))

/-- The addresses of gateways after `pub`, if there are any. -/
def Peripheral.gatewayText : List Nat → Text
  | [] => []
  | addresses => "pub" ++ (Literal.listText (addresses.map (Literal.int .u16)) ++ [' '])

/-- A peripheral with its index, after the keyword. -/
def Peripheral.bodyText (index : Nat) (p : Peripheral) : Text :=
  "peripheral" ++ ([' '] ++ ((Literal.int .u32 index).text ++ ([' '] ++
    (p.shape.name.family.keyword ++ ([' '] ++ p.shape.written)))))

/-- A declaration as it is written. -/
def Declaration.written : Declaration → Text
  | constant name l _ => l.bindingText "const" name
  | state name v _ => (ParameterType.value.literal v).bindingText "let" name
  | peripheral index p _ _ => Peripheral.gatewayText p.gateways ++ p.bodyText index

/-- A statement as it is written. -/
def Statement.written : Statement → Text
  | declaration d => d.written
  | rule p => p.written
  | clause m => m.clause

namespace Parser

variable {constants : Table Text Literal} {v : Text}

/-- The text of a binding is read as its name and its literal. -/
theorem binding_reads (hclear : constants.SparesBooleans) {word name : Text} {l : Literal}
    (hname : name.IsName) (hl : l.Fits Width.size) :
    (binding constants word).Reads (l.bindingText word name) v fun b =>
      b.name = name ∧ b.literal = l := by
  refine .bind (keyword_reads _ (Text.stops_cons.2 (by decide))) fun _ _ => .committed ?_
  refine .bind (u := [' ']) (space_reads (by decide) isSpace_of_mem_space
    (((hname.1.append _).append v).stops not_isSpace_of_isNameStart)) fun _ _ =>
      .here fun _ _ _ => .bind (name_reads hname (Text.stops_cons.2 (by decide))) ?_
  rintro _ rfl
  refine .bind (nextSymbol_reads (u := [' ']) isSpace_of_mem_space (by decide)) fun _ _ => ?_
  refine .bind (u := [' ']) (oneSpace_reads l.starts_text Literal.not_isSpace _) fun _ _ =>
    .here fun _ _ _ => .bind (literalOrConstant_reads hclear hl (Text.stops_cons.2 (by decide))) ?_
  rintro _ rfl
  exact .bind (w := []) terminator_reads fun _ _ => .pure ⟨rfl, rfl⟩

theorem constStatement_reads (hclear : constants.SparesBooleans) {name : Text} {l : Literal}
    {location : Option Cursor} (hname : name.IsName) (hl : l.Fits Width.size) :
    (constStatement constants).Reads (l.bindingText "const" name) v
      (·.unlocated = (Declaration.constant name l location).unlocated) := by
  refine .of_eq (.bind (w := []) (binding_reads hclear hname hl) ?_) (List.append_nil _)
  rintro b ⟨rfl, rfl⟩
  exact .bind (u := []) (.note _) fun _ _ => .pure rfl

theorem letStatement_reads (hclear : constants.SparesBooleans) {name : Text} {x : Value}
    {location : Option Cursor} (hname : name.IsName) (hx : x.Fits Width.size) :
    (letStatement constants).Reads ((ParameterType.value.literal x).bindingText "let" name) v
      (·.unlocated = (Declaration.state name x location).unlocated) := by
  refine .of_eq (.bind (w := []) (binding_reads hclear hname
    (ParameterType.fits_literal (p := .value) hx)) ?_) (List.append_nil _)
  rintro b ⟨rfl, hb⟩
  have hcast : ParameterType.value.cast b.literal (some b.literalAt) = .ok x := by
    rw [ParameterType.cast_eq_ok_iff, hb]
    exact ParameterType.convert_literal (p := .value) hx
  refine .bind (u := []) (.committed (.ofExcept (Q := (· = x)) hcast rfl)) ?_
  rintro _ rfl
  exact .bind (u := []) (.note _) fun _ _ => .pure rfl

/-- Addresses in parentheses after `pub` are read back, with the space after them. -/
theorem gatewayList_reads (hclear : constants.SparesBooleans) {addresses : List Nat}
    (h : ∀ n ∈ addresses, n < Width.u16.size) (hv : v.Stops isSpace) :
    (gatewayList constants).Reads
      ("pub" ++ (Literal.listText (addresses.map (Literal.int .u16)) ++ [' '])) v
      (· = addresses) := by
  refine .bind (keyword_reads _ (Text.stops_cons.2 (by decide))) fun _ _ => .committed ?_
  refine .bind (u := []) (skipSpace_reads (fun _ h => nomatch h) (Text.stops_cons.2 (by decide)))
    fun _ _ => .bind (argumentList_reads hclear (List.forall_mem_map.2 h)) ?_
  intro written hwritten
  have hcast : (written.mapM fun a => ParameterType.u16.cast a.literal (some a.location)) =
      .ok addresses := by
    rw [mapM_eq_ok]
    rw [← List.forall₂_eq_eq_eq, List.forall₂_map_left_iff, List.forall₂_map_right_iff] at hwritten
    exact hwritten.imp fun a n ha => by rw [ParameterType.cast_eq_ok_iff, ha]; rfl
  refine .bind (u := []) (.ofExcept (Q := (· = addresses)) hcast rfl) ?_
  rintro _ rfl
  exact .bind (w := []) (space_reads (by decide) isSpace_of_mem_space hv) fun _ _ => .pure rfl

theorem operand_reads (hclear : constants.SparesBooleans) {p : ParameterType} {a : p.Argument}
    (ha : p.Fits Width.size a) (hv : v.Stops isNameChar) :
    (operand constants p).Reads (p.literal a).text v (· = a) := by
  refine .here fun c _ _ => .of_eq (.bind (w := [])
    (literalOrConstant_reads hclear (ParameterType.fits_literal ha) hv) ?_) (List.append_nil _)
  rintro _ rfl
  exact .ofExcept (ParameterType.cast_eq_ok_iff.2 (ParameterType.convert_literal ha)) rfl

/-- The text of a shape is read as the shape, behind the keyword of its family. -/
theorem shape_reads (hclear : constants.SparesBooleans) {s : Shape} (hs : s.Fits Width.size) :
    (shape constants s.name.family.keyword).Reads s.written v (· = s) := by
  rw [shape, Family.ofKeyword?_keyword, demand_some, pure_bind]
  refine .here fun start _ _ => .bind (keywordChoice_reads
    (List.forall_mem_map.2 fun n _ => n.isName_spelling.2) (List.mem_map_of_mem s.name.mem_shapes)
    (Text.stops_cons.2 (by decide))) ?_
  rintro _ rfl
  rw [Family.shape?_spelling s.name.mem_shapes, demand_some, pure_bind]
  refine .bind (u := []) (skipSpace_reads (fun _ h => nomatch h) (Text.stops_cons.2 (by decide)))
    fun _ _ => .bind (argumentList_reads hclear hs.literals) fun written hwritten => ?_
  exact .bind (w := []) terminator_reads fun _ _ =>
    .ofExcept (Item.construct_of_literals hs hwritten) rfl

/-- A space that has to stand before a word. -/
theorem spaceBefore_reads {isMember : Char → Bool} {t : Text} (ht : t.Starts isMember)
    (hspace : ∀ c, isMember c → isSpace c = false) (w : Text) :
    space.Reads [' '] (t ++ w ++ v) fun _ => True :=
  space_reads (by decide) isSpace_of_mem_space (((ht.append w).append v).stops hspace)

theorem peripheralBody_reads (hclear : constants.SparesBooleans) {index : Nat} {p : Peripheral}
    (location : Option Cursor) (length : Nat) (hindex : index < Width.u32.size)
    (hp : p.Fits Width.size) :
    (peripheralBody constants p.gateways).Reads
      ([' '] ++ ((Literal.int .u32 index).text ++ ([' '] ++ (p.shape.name.family.keyword ++
        ([' '] ++ p.shape.written))))) v
      (·.unlocated = (Declaration.peripheral index p location length).unlocated) := by
  refine .bind (spaceBefore_reads (Literal.starts_text _) Literal.not_isSpace _)
    fun _ _ => .here fun _ _ _ => .bind (operand_reads (p := .u32) hclear hindex
      (Text.stops_cons.2 (by decide))) ?_
  rintro _ rfl
  refine .here fun _ _ _ => .bind (spaceBefore_reads p.shape.name.family.isName_keyword.1
    not_isSpace_of_isNameStart _) fun _ _ => ?_
  refine .bind (keywordChoice_reads (List.forall_mem_map.2 fun f _ => f.isName_keyword.2)
    (List.mem_map_of_mem p.shape.name.family.mem_all) (Text.stops_cons.2 (by decide))) ?_
  rintro _ rfl
  refine .bind (spaceBefore_reads p.shape.name.isName_spelling.1 not_isSpace_of_isNameStart _)
    fun _ _ => .of_eq (.bind (w := []) (shape_reads hclear hp.1) ?_) (List.append_nil _)
  rintro _ rfl
  exact .bind (u := []) (.note _) fun _ _ => .pure rfl

/-- The text of a peripheral is read as the peripheral. `pub` and `peripheral` differ in their
second letter. -/
theorem peripheralStatement_reads (hclear : constants.SparesBooleans) {index : Nat}
    {p : Peripheral} {location : Option Cursor} {length : Nat} (hindex : index < Width.u32.size)
    (hp : p.Fits Width.size) :
    (peripheralStatement constants).Reads (Peripheral.gatewayText p.gateways ++ p.bodyText index) v
      (·.unlocated = (Declaration.peripheral index p location length).unlocated) := by
  have hbody := peripheralBody_reads (v := v) hclear location length hindex hp
  have hkeyword := keyword_reads "peripheral" (v := [' '] ++ ((Literal.int .u32 index).text
    ++ ([' '] ++ (p.shape.name.family.keyword ++ ([' '] ++ p.shape.written)))) ++ v)
    (Text.stops_cons.2 (by decide))
  cases hgateways : p.gateways with
  | nil =>
    rw [hgateways] at hbody
    -- `pub` and `peripheral` differ in their second letter
    refine .bind (u := []) (.optional_none (keyword_rejects ?_).bind) ?_
    · rintro ⟨w, hw⟩
      exact absurd (List.cons.inj (List.cons.inj hw).2).1 (by decide)
    · rintro _ rfl
      exact .bind hkeyword fun _ _ => .committed hbody
  | cons address gateways =>
    have hlist := gatewayList_reads (v := p.bodyText index ++ v) hclear hp.2
      (Text.stops_cons.2 (by decide))
    rw [hgateways] at hlist hbody
    refine .bind hlist.optional ?_
    rintro _ ⟨_, rfl, rfl⟩
    exact .committed <| .bind hkeyword fun _ _ => hbody

theorem peripheralStatement_rejects {r : Text} (h : r.Stops (· = 'p')) :
    (peripheralStatement constants).Rejects r := by
  have hpub : (gatewayList constants).Rejects r := (keyword_rejects_of_stops rfl h).bind
  intro c hc hrest
  obtain ⟨_, hnone, rfl⟩ := Reads.optional_none hpub hc hrest
  have hperipheral : (keyword "peripheral" >>= fun _ =>
      committed (peripheralBody constants [])).Rejects r := (keyword_rejects_of_stops rfl h).bind
  rw [List.length_nil, Cursor.advance_zero hc] at hnone
  rw [peripheralStatement, outcome_bind, hnone, ok_bind]
  exact hperipheral hc hrest

end Parser

/-! ### Statements -/

/-- A name that a declaration may introduce without touching the truth values. -/
def Text.IsFreshName (t : Text) : Prop :=
  t.IsName ∧ ∀ b, Text.ofBool b ≠ t

/-- What a declaration introduces has a name and is in range. -/
def Declaration.Writable : Declaration → Prop
  | constant name l _ => name.IsFreshName ∧ l.Fits Width.size
  | state name v _ => name.IsFreshName ∧ v.Fits Width.size
  | peripheral index p _ _ => index < Width.u32.size ∧ p.Fits Width.size

variable [NestingLimit]

/-- A declaration or a rule that can be written: all in range, and not nested too deeply. -/
def Statement.Writable : Statement → Prop
  | declaration d => d.Writable
  | rule p => p.Fits Width.size ∧ p.Within NestingLimit.levels
  | clause _ => False

/-- The first character of a form. -/
def StatementForm.initial : StatementForm → Char
  | peripheral => 'p'
  | letState => 'l'
  | const => 'c'
  | send | setState => 's'
  | doBlock => 'd'

namespace Parser

variable {scope : Scope} {v : Text}

/-- A form of a statement rejects a text that starts with another letter. -/
theorem statementForm_rejects {form : StatementForm} {r : Text}
    (h : r.Stops (· = form.initial)) : (statementForm scope form).Rejects r := by
  cases form with
  | peripheral => exact (peripheralStatement_rejects h).map
  | letState | const => exact (keyword_rejects_of_stops rfl h).bind.bind.map
  | send | setState | doBlock => exact (keyword_rejects_of_stops rfl h).bind.map

/-- The form that reads a text is chosen if all earlier ones start with another character. -/
theorem statementForms_read (before : List StatementForm) {after : List StatementForm}
    {form : StatementForm} {u : Text} {Q : Statement → Prop}
    (hall : StatementForm.all = before ++ form :: after)
    (hbefore : ∀ other ∈ before, form.initial ≠ other.initial)
    (hu : u.Starts (· = form.initial)) (hform : (statementForm scope form).Reads u v Q) :
    (statement scope).Reads u v Q := by
  have halt : (alt (StatementForm.all.map (statementForm scope))).Reads u v Q := by
    rw [hall]
    refine .alt_map (fun other hother => statementForm_rejects ?_) hform
    refine (hu.append v).stops fun c hc => ?_
    rw [decide_eq_true_iff] at hc
    rw [hc, decide_eq_false_iff_not]
    exact hbefore other hother
  intro c hc hrest
  obtain ⟨s, hok, hs⟩ := halt hc hrest
  exact ⟨s, by rw [statement, outcome_statementIn, hok]; rfl, hs⟩

/-- A written statement is read back in every scope that spares the truth values, unless a semicolon
follows. -/
theorem statement_reads (hclear : scope.constants.SparesBooleans) {s : Statement}
    (hs : s.Writable) (hv : v.NoSemicolon) :
    (statement scope).Reads s.written v (·.unlocated = s.unlocated) := by
  have hdeclaration : ∀ {d d' : Declaration}, d'.unlocated = d.unlocated →
      (Statement.declaration d').unlocated = (Statement.declaration d).unlocated :=
    fun h => congrArg Statement.declaration h
  -- the first letter tells the form, except for `send` and `set`, which are not written
  cases s with
  | clause m => exact hs.elim
  | rule p =>
    have hdo : (statementForm scope .doBlock).Reads p.written v
        (·.unlocated = (Statement.rule p).unlocated) :=
      .map ((doStatement_reads hclear hs.1 hs.2 hv).mono fun _ h => by rw [h])
    exact statementForms_read [.peripheral, .letState, .const, .send] rfl (by decide)
      (Text.starts_cons.2 (by decide)) hdo
  | declaration d =>
    cases d with
    | constant name l location =>
      have hconst : (statementForm scope .const).Reads (l.bindingText "const" name) v
          (·.unlocated = (Statement.declaration (.constant name l location)).unlocated) :=
        .map ((constStatement_reads hclear hs.1.1 hs.2).mono fun _ => hdeclaration)
      exact statementForms_read [.peripheral, .letState] rfl (by decide)
        (Text.starts_cons.2 (by decide)) hconst
    | state name x location =>
      have hlet : (statementForm scope .letState).Reads
          ((ParameterType.value.literal x).bindingText "let" name) v
          (·.unlocated = (Statement.declaration (.state name x location)).unlocated) :=
        .map ((letStatement_reads hclear hs.1.1 hs.2).mono fun _ => hdeclaration)
      exact statementForms_read [.peripheral] rfl (by decide)
        (Text.starts_cons.2 (by decide)) hlet
    | peripheral index p location length =>
      have hperipheral : (statementForm scope .peripheral).Reads
          (Peripheral.gatewayText p.gateways ++ p.bodyText index) v
          (·.unlocated = (Statement.declaration (.peripheral index p location length)).unlocated) :=
        .map ((peripheralStatement_reads hclear hs.1 hs.2).mono fun _ => hdeclaration)
      have hstarts : (Peripheral.gatewayText p.gateways ++ p.bodyText index).Starts (· = 'p') := by
        cases p.gateways <;> exact Text.starts_cons.2 (by decide)
      exact statementForms_read [] rfl (fun _ h => nomatch h) hstarts hperipheral

end Parser

end EventRules
