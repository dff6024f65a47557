/-
# Statements without their semicolon

All statements but blocks end with a semicolon. Where it is missing, the parser of the statement
fails with one fatal diagnostic that has no reasons below it: the semicolon was expected, and the
place is the end of what stands before it, whatever comes later.

Two runs are compared, one over a statement that is complete and one over its text without the
semicolon. What comes before the end of the statement is read alike in both, as each token depends
on its own text. The last part is an operand, an argument list or a condition. It ends with
something other than space, so that its end is found from the text, and it does not go on over
space.
-/

import EventRules.Proofs.DerivedClause

namespace EventRules

/-! ### Ends of constructs -/

/-- Nothing ends the construct before the cursor: the text ends or goes on with space, and behind
the space stands neither a semicolon nor a condition. -/
structure Cursor.Unended (c : Cursor) : Prop where
  breaks : c.rest.Breaks
  semicolon : c.skipSpace.peek ≠ ";"
  condition : ¬ c.IfAhead

/-- Something other than space stands just behind the cursor. -/
def Cursor.Closed (c : Cursor) : Prop :=
  ∃ ch, c.previous? = some ch ∧ isSpace ch = false

/-- Between the first two cursors stands the text of a construct, and the semicolon behind it leads
to the third one. -/
structure Cursor.Construct (c : Cursor) (t : Text) (d e : Cursor) : Prop where
  ne_nil : t ≠ []
  crosses : c.Crosses t d
  closed : d.Closed
  mark : d.Mark ';' e

section Closed

variable {constants : Table Text Literal} {c d : Cursor}

/-- Progress is made over a text that is not empty. -/
theorem Cursor.Crosses.ne_nil {t : Text} (h : c.Crosses t d)
    (hlt : d.rest.length < c.rest.length) : t ≠ [] := by
  rintro rfl
  rw [h.rest_eq] at hlt
  exact absurd hlt (Nat.lt_irrefl _)

theorem Cursor.Mark.closed {m : Char} (h : c.Mark m d) (hm : isSpace m = false) : d.Closed :=
  ⟨m, h.previous?, hm⟩

/-- An operand ends with something other than space. -/
theorem OperandAt.closed {l : Literal} (h : OperandAt constants c l d) : d.Closed := by
  obtain ⟨ch, hch, hkind⟩ := h.previous?_eq
  refine ⟨ch, hch, Bool.eq_false_iff.2 fun hspace => ?_⟩
  rcases hkind with rfl | hword
  · exact absurd hspace (by decide)
  · rw [not_isWordChar_of_isSpace hspace] at hword
    cases hword

/-- Arguments end with their closing parenthesis. -/
theorem ArgumentsAt.closed {ls : List Literal} (h : ArgumentsAt constants c ls d) : d.Closed := by
  cases h with
  | none _ hclose | some _ _ _ hclose => exact hclose.closed (by decide)

/-- Arguments have at least their parentheses. -/
theorem ArgumentsAt.length_lt {ls : List Literal} (h : ArgumentsAt constants c ls d) :
    d.rest.length < c.rest.length := by
  cases h with
  | none hopen hclose => exact hclose.length_lt.trans_le hopen.leads.length_le
  | some hopen hspace hoperands hclose =>
    obtain ⟨_, hcross⟩ := hoperands.portable.exists_crosses
    have hlead := hopen.leads.trans (hspace.leads.trans hcross.leads)
    exact hclose.length_lt.trans_le hlead.length_le

/-- A matcher ends with an operand, a keyword or a closing brace. -/
theorem MatcherAt.closed {m : Matcher} (h : MatcherAt constants c m d) : d.Closed := by
  cases h with
  | event _ _ _ hoperand | producer _ _ _ hoperand => exact hoperand.closed
  | tick hword => exact ⟨'k', hword.1.previous? (by decide), by decide⟩
  | filter _ _ _ hclose | extraction _ _ _ _ _ hclose | not _ _ _ _ hclose
  | or _ _ _ _ _ _ _ hclose | and _ _ _ _ _ _ _ hclose => exact hclose.closed (by decide)

theorem ConditionAt.inSource {guard : Option Matcher} (h : ConditionAt constants c guard d) :
    c.inSource := by
  cases h with
  | none hc => exact hc
  | some hgap =>
    obtain ⟨_, -, -, hcross⟩ := Cursor.spaced_iff.1 hgap
    exact hcross.1

theorem ConditionAt.leads {guard : Option Matcher} (h : ConditionAt constants c guard d) :
    c.Leads d := by
  obtain ⟨_, hcross⟩ := h.portable.exists_crosses
  exact hcross.leads

/-- Without a condition, the end is the end of what stands before it. -/
theorem ConditionAt.closed {guard : Option Matcher} (h : ConditionAt constants c guard d)
    (hc : c.Closed) : d.Closed := by
  cases h with
  | none => exact hc
  | some _ _ _ hclause =>
    obtain ⟨_, _, _, _, hm⟩ := hclause
    exact hm.closed

end Closed

namespace Parser

variable {α β : Type} {p : Parser α} {f : α → Parser β} {constants : Table Text Literal}
  {c d : Cursor}

/-- What the parser reads ends with something other than space, and its text is read elsewhere as
well, perhaps with other values. -/
def Ends (p : Parser α) : Prop :=
  ∀ ⦃c : Cursor⦄ ⦃a : α⦄ ⦃d : Cursor⦄, p.outcome c = .ok (a, d) →
    d.Closed ∧ d.rest.length < c.rest.length ∧
      Cursor.Portable (fun c d => ∃ b, p.outcome c = .ok (b, d)) c d

theorem literalOrConstant_ends : (literalOrConstant constants).Ends := by
  intro c l d hok
  have hl : OperandAt constants c l d := hok
  exact ⟨hl.closed, (literalOrConstant_takes constants).consumes hok,
    hl.portable.mono fun _ _ hl => ⟨l, hl⟩⟩

theorem operand_ends (p : ParameterType) : (operand constants p).Ends := by
  intro c a d hok
  obtain ⟨l, hl, -⟩ := operand_eq_ok_iff.1 hok
  exact ⟨hl.closed, (literalOrConstant_takes constants).consumes hl,
    (operand_portable p hok).mono fun _ _ h => ⟨a, h⟩⟩

/-- Arguments are read wherever their text stands, since the closing parenthesis ends them. -/
theorem argumentList_ends : (argumentList constants).Ends := by
  intro c as d hok
  have harguments := argumentsAt_of_argumentList hok
  refine ⟨harguments.closed, harguments.length_lt, harguments.portable.mono fun _ _ h => ?_⟩
  obtain ⟨bs, hbs, -⟩ := argumentList_of_argumentsAt h
  exact ⟨bs, hbs⟩

/-! ### Parts that are read alike -/

theorem nextKeyword_local {word : Text} (hword : word.IsName) : (nextKeyword word).Local := by
  intro c x d hc hok
  obtain ⟨b, hgap, hcross, hstops⟩ := (nextKeyword_eq_ok_iff hword).1 hok
  obtain ⟨s, hne, hs, hspace⟩ := Cursor.spaced_iff.1 hgap
  refine ⟨s ++ word, isNameChar, hspace.trans hcross, hstops, .inr hword.endsWord.append,
    fun c' d' hcross' hstops' => ?_⟩
  obtain ⟨hspace', hcross'⟩ := hcross'.split
  have hgap' := Cursor.spaced_iff.2 ⟨s, hne, hs, hspace'⟩
  exact (nextKeyword_eq_ok_iff hword).2 ⟨_, hgap', hcross', hstops'⟩

theorem operand_local (p : ParameterType) : (operand constants p).Local := by
  intro c a d hc hok
  obtain ⟨l, hl, hconvert⟩ := operand_eq_ok_iff.1 hok
  obtain ⟨t, goesOn, hcross, hstops, hend, hread⟩ := literalOrConstant_local constants hc hl
  exact ⟨t, goesOn, hcross, hstops, hend, fun c' d' hcross' hstops' =>
    operand_eq_ok_iff.2 ⟨l, hread hcross' hstops', hconvert⟩⟩

theorem ofExcept_eq_ok_iff {x : Except Failure α} {c d : Cursor} {a : α} :
    (ofExcept x).outcome c = .ok (a, d) ↔ x = .ok a ∧ d = c := by
  rw [outcome_ofExcept]
  cases x with
  | error e => simp [Except.map]
  | ok b => simp [Except.map, eq_comm]

/-- Space is read as far as it goes. -/
theorem space_eq_ok_iff {x : Unit} :
    space.outcome c = .ok (x, d) ↔ c.Spaced d ∧ d.rest.Stops isSpace := by
  rw [outcome_space]
  constructor
  · intro hok
    split at hok
    · cases hok
    · next hne =>
      cases hok
      have hc : c.inSource :=
        Cursor.inSource_of_rest_ne_nil fun hnil => hne (by rw [hnil, List.takeWhile_nil])
      exact ⟨⟨Cursor.blanks_skipSpace hc, (Cursor.crosses_skipSpace hc).ne hne⟩, c.stops_skipSpace⟩
  · rintro ⟨⟨hblanks, hne⟩, hstops⟩
    obtain rfl := hblanks.skipSpace_eq hstops
    obtain ⟨s, hs, hcross⟩ := hblanks
    rw [if_neg]
    intro hempty
    rw [Cursor.skipSpace, hempty, List.length_nil, Cursor.advance_zero hcross.1] at hne
    exact hne rfl

/-- Gateways are read as a keyword and arguments that are converted to addresses, with space behind
them. -/
theorem gatewayList_eq_ok_iff {gateways : List Nat} :
    (gatewayList constants).outcome c = .ok (gateways, d) ↔
      ∃ c₁ c₂ c₃ as, c.Word "pub" c₁ ∧ c₁.Blanks c₂ ∧
        (argumentList constants).outcome c₂ = .ok (as, c₃) ∧
        (as.mapM fun a => ParameterType.u16.cast a.literal (some a.location)) = .ok gateways ∧
        c₃.Spaced d ∧ d.rest.Stops isSpace := by
  rw [gatewayList, bind_outcome_eq_ok_iff]
  simp only [committed_eq_ok_iff]
  constructor
  · rintro ⟨_, c₁, hword, h⟩
    rw [outcome_bind, outcome_skipSpace, ok_bind,
      argumentList_opens.bind.outcome_skipSpace_eq_ok_iff] at h
    obtain ⟨c₂, hblanks, h⟩ := h
    obtain ⟨as, c₃, has, h⟩ := bind_outcome_eq_ok_iff.1 h
    obtain ⟨addresses, c₄, hconvert, h⟩ := bind_outcome_eq_ok_iff.1 h
    obtain ⟨_, _, hspace, heq⟩ := bind_outcome_eq_ok_iff.1 h
    cases heq
    obtain ⟨haddresses, rfl⟩ := ofExcept_eq_ok_iff.1 hconvert
    exact ⟨c₁, c₂, c₄, as, keyword_eq_ok_iff.1 hword, hblanks, has, haddresses,
      space_eq_ok_iff.1 hspace⟩
  · rintro ⟨c₁, c₂, c₃, as, hword, hblanks, has, hcasts, hspaced⟩
    refine ⟨(), c₁, keyword_eq_ok_iff.2 hword, ?_⟩
    rw [outcome_bind, outcome_skipSpace, ok_bind,
      argumentList_opens.bind.outcome_skipSpace_eq_ok_iff]
    refine ⟨c₂, hblanks, bind_outcome_eq_ok_iff.2 ⟨as, c₃, has, bind_outcome_eq_ok_iff.2
      ⟨gateways, c₃, ofExcept_eq_ok_iff.2 ⟨hcasts, rfl⟩, bind_outcome_eq_ok_iff.2
        ⟨(), d, space_eq_ok_iff.2 hspaced, rfl⟩⟩⟩⟩

/-- Gateways are read wherever their text stands, since space is behind them. -/
theorem gatewayList_local : (gatewayList constants).Local := by
  intro c gateways d hc hok
  obtain ⟨c₁, c₂, c₃, as, hword, hblanks, has, hcasts, hgap, hstops⟩ :=
    gatewayList_eq_ok_iff.1 hok
  obtain ⟨s, hne, hs, hspace⟩ := Cursor.spaced_iff.1 hgap
  have hfront := (hword.portable.comp hblanks.portable).comp
    (argumentsAt_of_argumentList has).portable
  obtain ⟨t, hcross⟩ := hfront.exists_crosses
  refine ⟨t ++ s, isSpace, hcross.trans hspace, hstops, .inl fun _ => id,
    fun c' d' hcross' hstops' => ?_⟩
  obtain ⟨hcross', hspace'⟩ := hcross'.split
  have hnext : (c'.advance t.length).rest.Stops isNameChar := by
    obtain ⟨ch, s, rfl⟩ := List.exists_cons_of_ne_nil hne
    rw [hspace'.rest_eq]
    exact Text.stops_cons.2
      (Alignment.solid_isNameChar.not_of_isSpace (hs ch (List.mem_cons_self ..)))
  obtain ⟨c₂', ⟨c₁', hword', hblanks'⟩, harguments'⟩ := hfront.of_crosses hcross hcross' hnext
  obtain ⟨bs, hbs, hliterals⟩ := argumentList_of_argumentsAt harguments'
  have hgap' := Cursor.spaced_iff.2 ⟨s, hne, hs, hspace'⟩
  exact gatewayList_eq_ok_iff.2 ⟨c₁', c₂', _, bs, hword', hblanks', hbs,
    ParameterType.mapM_cast_congr hliterals hcasts, hgap', hstops'⟩

/-! ### Parsers that stand still -/

/-- The parser stands still where it succeeds. -/
def Idle (p : Parser α) : Prop :=
  ∀ ⦃c : Cursor⦄ ⦃a : α⦄ ⦃d : Cursor⦄, p.outcome c = .ok (a, d) → d = c

namespace Idle

protected theorem pure (a : α) : (pure a : Parser α).Idle := by
  rintro c _ _ ⟨⟩
  rfl

protected theorem note (n : Note) : (note n).Idle := by
  rintro c _ _ ⟨⟩
  rfl

/-- A check reads nothing. -/
protected theorem ofExcept (x : Except Failure α) : (ofExcept x).Idle := by
  intro c a d hok
  exact (ofExcept_eq_ok_iff.1 hok).2

protected theorem committed (hp : p.Idle) : (Parser.committed p).Idle := by
  intro c a d hok
  exact hp (committed_eq_ok_iff.1 hok)

protected theorem bind (hp : p.Idle) (hf : ∀ a, (f a).Idle) : (p >>= f).Idle := by
  intro c b e hok
  obtain ⟨a, d, hfirst, hsecond⟩ := bind_outcome_eq_ok_iff.1 hok
  exact (hf a hsecond).trans (hp hfirst)

end Idle

/-! ### The missing semicolon -/

/-- The diagnostic for a semicolon that is missing at the cursor. -/
def missingSemicolon (severity : Severity) (c : Cursor) : Diagnostic :=
  .finding { location := some c, problem := .expected (.symbol ";"), severity }

/-- Where a construct is not ended, its semicolon is missing. -/
theorem outcome_terminator_of_unended {c : Cursor} (h : c.Unended) :
    terminator.outcome c = .error (missingSemicolon .recoverable c) := by
  rw [outcome_terminator, if_neg h.semicolon]
  rfl

/-- All that the parsers of the family read is a text with a semicolon behind it, and wherever this
text stands without a semicolon, each of them reports where it ends. The parsers of a family differ
only in the places that they have noted before. -/
def Demands {ι : Type} (severity : Severity) (p : ι → Parser α) : Prop :=
  ∀ ⦃i : ι⦄ ⦃c : Cursor⦄ ⦃a : α⦄ ⦃e : Cursor⦄, c.inSource → (p i).outcome c = .ok (a, e) →
    ∃ (t : Text) (d : Cursor), c.Construct t d e ∧
      ∀ ⦃j : ι⦄ ⦃c' d' : Cursor⦄, c'.Crosses t d' → d'.Unended →
        (p j).outcome c' = .error (missingSemicolon severity d')

namespace Demands

variable {ι : Type} {severity : Severity} {p : Parser α} {q : ι → Parser α}
  {f : ι → α → Parser β}

/-- The semicolon after the last part of a construct. -/
theorem of_ends {f : ι → α → Unit → Parser β} (hp : p.Ends) (hf : ∀ i a x, (f i a x).Idle) :
    Demands .recoverable fun i => p >>= fun a => terminator >>= f i a := by
  intro i c b e hc hok
  obtain ⟨a, d, hread, hok⟩ := bind_outcome_eq_ok_iff.1 hok
  obtain ⟨x, e', hmark, hok⟩ := bind_outcome_eq_ok_iff.1 hok
  obtain rfl := hf i a x hok
  obtain ⟨hclosed, hlt, hportable⟩ := hp hread
  obtain ⟨t, hcross⟩ := hportable.exists_crosses
  refine ⟨t, d, ⟨hcross.ne_nil hlt, hcross, hclosed, terminator_eq_ok_iff.1 hmark⟩,
    fun j c' d' hcross' hend => ?_⟩
  obtain ⟨b, hread'⟩ :=
    hportable.of_crosses hcross hcross' (hend.breaks.stops Alignment.solid_isNameChar)
  rw [outcome_bind, hread', ok_bind, outcome_bind, outcome_terminator_of_unended hend, error_bind]

/-- The semicolon after a condition, or after what stands before it if there is none. -/
theorem of_condition [NestingLimit] {f : ι → α → Option Matcher → Unit → Parser β} (hp : p.Ends)
    (hf : ∀ i a guard x, (f i a guard x).Idle) :
    Demands .recoverable fun i =>
      p >>= fun a => condition constants >>= fun guard => terminator >>= f i a guard := by
  intro i c b e hc hok
  obtain ⟨a, c₁, hread, hok⟩ := bind_outcome_eq_ok_iff.1 hok
  obtain ⟨guard, d, hguard, hok⟩ := bind_outcome_eq_ok_iff.1 hok
  obtain ⟨x, e', hmark, hok⟩ := bind_outcome_eq_ok_iff.1 hok
  obtain rfl := hf i a guard x hok
  obtain ⟨hclosed, hlt, hportable⟩ := hp hread
  obtain ⟨_, hcross₁⟩ := hportable.exists_crosses
  obtain ⟨hcondition, hdepth, -⟩ := (condition_eq_ok_iff hcross₁.inSource).1 hguard
  have hboth := hportable.comp hcondition.portable
  obtain ⟨t, hcross⟩ := hboth.exists_crosses
  refine ⟨t, d, ⟨hcross.ne_nil (hcondition.leads.length_le.trans_lt hlt), hcross,
    hcondition.closed hclosed, terminator_eq_ok_iff.1 hmark⟩, fun j c' d' hcross' hend => ?_⟩
  obtain ⟨c₁', ⟨a', hread'⟩, hcondition'⟩ :=
    hboth.of_crosses hcross hcross' (hend.breaks.stops Alignment.solid_isNameChar)
  have hguard' : (condition constants).outcome c₁' = .ok (guard, d') :=
    (condition_eq_ok_iff hcondition'.inSource).2 ⟨hcondition', hdepth, fun _ => hend.condition⟩
  rw [outcome_bind, hread', ok_bind, outcome_bind, hguard', ok_bind, outcome_bind,
    outcome_terminator_of_unended hend, error_bind]

/-- What comes before is read alike. -/
protected theorem bind (hp : p.Local) (hf : ∀ a, Demands severity fun i => f i a) :
    Demands severity fun i => p >>= f i := by
  intro i c b e hc hok
  obtain ⟨a, c₁, hread, hok⟩ := bind_outcome_eq_ok_iff.1 hok
  obtain ⟨t, goesOn, hcross, hstops, -, hmove⟩ := hp hc hread
  obtain ⟨u, d, hu, hreport⟩ := hf a hcross.inSource hok
  refine ⟨t ++ u, d, ⟨List.append_ne_nil_of_right_ne_nil t hu.ne_nil, hcross.trans hu.crosses,
    hu.closed, hu.mark⟩, fun j c' d' hcross' hend => ?_⟩
  obtain ⟨hfirst, hsecond⟩ := hcross'.split
  have hnext : (c'.advance t.length).rest.Stops goesOn := by
    obtain ⟨ch, u, rfl⟩ := List.exists_cons_of_ne_nil hu.ne_nil
    rw [hu.crosses.rest_eq] at hstops
    rw [hsecond.rest_eq]
    exact Text.stops_cons.2 (Text.stops_cons.1 hstops)
  rw [outcome_bind, hmove hfirst hnext, ok_bind]
  exact hreport hsecond hend

/-- The next keyword with space around it is read alike. -/
theorem nextKeyword_bind {word : Text} (hword : word.IsName) (hq : Demands severity q) :
    Demands severity fun i => nextKeyword word >>= fun _ => space >>= fun _ => q i :=
  .bind (nextKeyword_local hword) fun _ => .bind space_local fun _ => hq

/-- A place that is noted makes the family larger. -/
theorem here_bind {f : ι → Cursor → Parser β}
    (hf : Demands severity fun k : ι × Cursor => f k.1 k.2) :
    Demands severity fun i => here >>= f i := by
  intro i c b e hc hok
  obtain ⟨t, d, ht, hreport⟩ := hf (i := (i, c)) hc hok
  exact ⟨t, d, ht, fun j c' _ hcross' hend => hreport (j := (j, c')) hcross' hend⟩

/-- What comes after the semicolon takes no text. -/
theorem andThen (hq : Demands severity q) (hf : ∀ i a, (f i a).Idle) :
    Demands severity fun i => q i >>= f i := by
  intro i c b e hc hok
  obtain ⟨a, e', hread, hok⟩ := bind_outcome_eq_ok_iff.1 hok
  obtain rfl := hf i a hok
  obtain ⟨t, d, ht, hreport⟩ := hq hc hread
  refine ⟨t, d, ht, fun j c' d' hcross' hend => ?_⟩
  rw [outcome_bind, hreport hcross' hend, error_bind]

protected theorem map {g : α → β} (hq : Demands severity q) :
    Demands severity fun i => g <$> q i := by
  simp only [← bind_pure_comp]
  exact hq.andThen fun _ a => .pure (g a)

/-- A missing semicolon is reported as fatal behind the keyword that commits. -/
protected theorem committed (hq : Demands .recoverable q) :
    Demands .fatal fun i => committed (q i) := by
  intro i c a e hc hok
  obtain ⟨t, d, ht, hreport⟩ := hq hc (committed_eq_ok_iff.1 hok)
  refine ⟨t, d, ht, fun j c' d' hcross' hend => ?_⟩
  rw [outcome_committed, hreport hcross' hend]
  rfl

end Demands

/-! ### Statements -/

variable {ι : Type}

/-- Declarations by a binding need their semicolon. -/
theorem binding_demands {word : Text} (hword : word.IsName) :
    Demands .fatal fun _ : ι => binding constants word := by
  refine .bind (keyword_local hword) fun _ => .committed ?_
  refine .bind space_local fun _ => .here_bind <| .bind name_local fun _ => ?_
  refine .bind (mark_local fun _ _ _ => nextSymbol_eq_ok_iff (by decide)) fun _ => ?_
  refine .bind skipSpace_local fun _ => .here_bind <| .of_ends literalOrConstant_ends ?_
  exact fun _ _ _ => .pure _

theorem sendStatement_demands [NestingLimit] (scope : Scope) :
    Demands .fatal fun _ : ι => sendStatement scope := by
  refine .bind (keyword_local (by decide)) fun _ => .andThen (.committed ?_) fun _ r => ?_
  · refine .bind space_local fun _ => .bind (operand_local _) fun _ => ?_
    refine .nextKeyword_bind (by decide) <| .bind (operand_local _) fun _ => ?_
    refine .nextKeyword_bind (by decide) <| .of_condition (operand_ends _) ?_
    exact fun _ _ _ _ => .pure _
  · exact (Idle.note _).bind fun _ => (Idle.ofExcept _).bind fun _ => .pure _

theorem setStatement_demands [NestingLimit] (scope : Scope) :
    Demands .fatal fun _ : ι => setStatement scope := by
  refine .bind (keyword_local (by decide)) fun _ => .andThen (.committed ?_) fun _ r => ?_
  · refine .bind space_local fun _ => .bind (stateVariable_local _) fun _ => ?_
    refine .nextKeyword_bind (by decide) <| .bind (operand_local _) fun _ => ?_
    refine .nextKeyword_bind (by decide) <| .bind (operand_local _) fun _ => ?_
    refine .nextKeyword_bind (by decide) <| .of_condition (operand_ends _) ?_
    exact fun _ _ _ _ => .pure _
  · exact (Idle.note _).bind fun _ => (Idle.ofExcept _).bind fun _ => .pure _

/-- The channels of a shape are checked only behind the semicolon. -/
theorem shape_demands (familyWord : Text) :
    Demands .recoverable fun _ : ι => shape constants familyWord := by
  refine .bind (ofExcept_local _) fun family => ?_
  have hwords : ∀ word ∈ family.shapes.map ItemName.spelling, word.IsName :=
    List.forall_mem_map.2 fun s _ => s.isName_spelling
  refine .here_bind (.bind (keywordChoice_local hwords) fun _ => ?_)
  refine .bind (ofExcept_local _) fun _ => .bind skipSpace_local fun _ => ?_
  exact .of_ends argumentList_ends fun _ _ _ => .ofExcept _

theorem peripheralBody_demands (gateways : List Nat) :
    Demands .recoverable fun _ : ι => peripheralBody constants gateways := by
  have hwords : ∀ word ∈ Family.all.map Family.keyword, word.IsName :=
    List.forall_mem_map.2 fun f _ => f.isName_keyword
  refine .bind space_local fun _ => .here_bind (.bind (operand_local _) fun _ => .here_bind ?_)
  refine .bind space_local fun _ => .bind (keywordChoice_local hwords) fun familyWord => ?_
  refine .bind space_local fun _ => .andThen (shape_demands familyWord) fun _ s => ?_
  exact (Idle.note _).bind fun _ => .pure _

/-- A fatal diagnostic passes through an option. -/
theorem outcome_optional_bind_of_isFatal {f : Option α → Parser β} {e : Failure}
    (h : (p >>= fun a => f (some a)).outcome c = .error e) (he : e.isFatal) :
    (optional p >>= f).outcome c = .error e := by
  rw [outcome_bind] at h ⊢
  rw [outcome_optional]
  rcases bind_eq_error.1 h with hp | ⟨r, hp, hf⟩
  · rw [hp]
    dsimp only
    rw [if_pos he, error_bind]
  · rw [hp]
    exact hf

/-- A peripheral needs its semicolon, with gateways or without. -/
theorem peripheralStatement_demands :
    Demands .fatal fun _ : ι => peripheralStatement constants := by
  intro i c a e hc hok
  obtain ⟨o, c₁, ho, h⟩ := bind_outcome_eq_ok_iff.1 hok
  rcases (gatewayList_commits _).optional_eq_ok_iff.1 ho with
    ⟨gateways, rfl, hgateways⟩ | ⟨rfl, rfl, hhead⟩
  · have hsome : Demands .fatal fun _ : ι => gatewayList constants >>= fun gateways =>
        committed (keyword "peripheral" >>= fun _ => peripheralBody constants gateways) :=
      .bind gatewayList_local fun gateways => .committed <|
        .bind (keyword_local (by decide)) fun _ => peripheralBody_demands gateways
    obtain ⟨t, d, ht, hreport⟩ :=
      hsome (i := i) hc (bind_outcome_eq_ok_iff.2 ⟨gateways, c₁, hgateways, h⟩)
    exact ⟨t, d, ht, fun j c' d' hcross' hend =>
      outcome_optional_bind_of_isFatal (hreport (j := j) hcross' hend) rfl⟩
  · have hnone : Demands .fatal fun _ : ι => keyword "peripheral" >>= fun _ =>
        committed (peripheralBody constants []) :=
      .bind (keyword_local (by decide)) fun _ => .committed (peripheralBody_demands [])
    obtain ⟨t, d, ht, hreport⟩ := hnone (i := i) hc h
    refine ⟨t, d, ht, fun j c' d' hcross' hend => ?_⟩
    have hreport' := hreport (j := j) hcross' hend
    have hkeyword : c'.atKeyword "peripheral" := by
      by_contra hno
      have hcommits := (keyword_commits "peripheral").bind
        fun _ => Sure.committed (peripheralBody constants [])
      have hdeclines := (hcommits c').2 hno
      rw [declines_of_error hreport'] at hdeclines
      cases hdeclines
    have hpub : ¬ c'.atKeyword "pub" := by
      rw [Cursor.atKeyword_iff_takeWhile (by decide)] at hkeyword ⊢
      rw [hkeyword]
      decide
    rw [peripheralStatement, outcome_bind,
      outcome_optional_of_declines ((gatewayList_commits _ c').2 hpub)]
    exact hreport'

/-- Every statement but a block needs its semicolon. -/
theorem statementForm_demands [NestingLimit] (scope : Scope) {form : StatementForm}
    (hform : form ≠ .doBlock) : Demands .fatal fun _ : ι => statementForm scope form := by
  cases form with
  | peripheral => exact peripheralStatement_demands.map
  | letState =>
    refine ((binding_demands (by decide)).andThen fun _ b => ?_).map
    exact ((Idle.ofExcept _).committed).bind fun _ => (Idle.note _).bind fun _ => .pure _
  | const =>
    refine ((binding_demands (by decide)).andThen fun _ b => ?_).map
    exact (Idle.note _).bind fun _ => .pure _
  | send => exact (sendStatement_demands scope).map
  | doBlock => exact absurd rfl hform
  | setState => exact (setStatement_demands scope).map

end Parser

/-! ### Broken statements -/

/-- The text starts with the word, and the word ends where a name would end. -/
def Text.StartsWord (t word : Text) : Prop :=
  word <+: t ∧ Text.Stops isNameChar (t.drop word.length)

theorem Cursor.startsWord_of_atKeyword {c : Cursor} {word : Text} (h : c.atKeyword word) :
    c.rest.StartsWord word := by
  obtain ⟨hcross, hstops⟩ := word_iff.2 ⟨h, rfl⟩
  refine ⟨hcross.2.1, ?_⟩
  rwa [rest_advance] at hstops

/-- Where nothing but space follows, or space and then a text of another kind, the construct is not
ended. -/
theorem Cursor.unended_of_rest {c : Cursor} {w t : Text} (hrest : c.rest = w ++ t)
    (hw : ∀ ch ∈ w, isSpace ch)
    (ht : t = [] ∨ w ≠ [] ∧ t.Stops (fun ch => isSpace ch || ch = ';') ∧ ¬ t.StartsWord "if") :
    c.Unended := by
  have hstops : t.Stops fun ch => isSpace ch || ch = ';' := by
    rcases ht with rfl | ⟨-, hstops, -⟩
    · exact Text.stops_nil _
    · exact hstops
  have hskip : c.skipSpace.rest = t := by
    rw [Cursor.rest_skipSpace, hrest]
    exact Text.dropWhile_append_of_stops hw (hstops.mono fun ch hch => by simp [hch])
  refine ⟨?_, fun hpeek => ?_, fun hif => ?_⟩
  · rw [hrest]
    cases w with
    | nil =>
      obtain rfl : t = [] := ht.resolve_right fun h => h.1 rfl
      exact Text.stops_nil _
    | cons ch w => exact Text.stops_cons.2 (by simp [hw ch (List.mem_cons_self ..)])
  · have hhead := Cursor.head?_of_peek hpeek
    rw [hskip] at hhead
    exact absurd (hstops ';' hhead) (by decide)
  · have hword := Cursor.startsWord_of_atKeyword hif.2
    rw [hskip] at hword
    rcases ht with rfl | ⟨-, -, hno⟩
    · exact absurd (List.prefix_nil.1 hword.1) (by decide)
    · exact hno hword

namespace Parser

/-- A missing semicolon is reported right behind the construct. Every statement other than a block
is a construct that ends with something other than space, perhaps space, and a semicolon. If space
and another text stand in place of the latter, or nothing but space, then the statement fails with
one fatal diagnostic, which is located where the construct ends. -/
theorem statementForm_missing_semicolon [NestingLimit] (scope : Scope) (form : StatementForm)
    (hform : form ≠ .doBlock) (name text : Text) (s : Statement)
    (hs : (statementForm scope form).outcome (Source.mk name text).start =
      .ok (s, (Source.mk name text).cursor text.length)) :
    ∃ body gap : Text, text = body ++ (gap ++ [';']) ∧ (∀ ch ∈ gap, isSpace ch) ∧
      (∃ ch, body.getLast? = some ch ∧ isSpace ch = false) ∧
      ∀ w t : Text, (∀ ch ∈ w, isSpace ch) →
        (t = [] ∨ w ≠ [] ∧ t.Stops (fun ch => isSpace ch || ch = ';') ∧ ¬ t.StartsWord "if") →
        let broken := Source.mk name (body ++ (w ++ t))
        (statementForm scope form).outcome broken.start = .error (Diagnostic.finding {
          location := some (broken.cursor body.length)
          problem := .expected (.symbol ";")
          severity := .fatal }) := by
  obtain ⟨body, d, ⟨hne, hcross, ⟨ch, hch, hsolid⟩, ⟨b, ⟨gap, hgap, hblanks⟩, hmark⟩⟩, hreport⟩ :=
    statementForm_demands scope hform (i := ()) (Cursor.inSource_start _) hs
  have hend : ((Source.mk name text).cursor text.length).rest = [] := List.drop_length
  have htext : text = body ++ (gap ++ [';']) := by
    have hrest := hcross.rest_eq
    rwa [hblanks.rest_eq, hmark.rest_eq, hend] at hrest
  refine ⟨body, gap, htext, hgap, ⟨ch, (hcross.previous? hne).symm.trans hch, hsolid⟩,
    fun w t hw ht => ?_⟩
  intro broken
  have hcross' : broken.start.Crosses body (broken.cursor body.length) := by
    refine ⟨Cursor.inSource_start _, List.prefix_append _ _, ?_⟩
    rw [Source.start, Source.advance_cursor _ (by simp [broken]), Nat.zero_add]
  exact hreport (j := ()) hcross' (Cursor.unended_of_rest List.drop_left hw ht)

/-- The constant lacks its semicolon, and another statement seems to follow. -/
theorem statementForm_missing_semicolon_const :
    let broken := Source.mk [] "const a=true let"
    (statementForm ({} : Scope) .const).outcome broken.start = .error (Diagnostic.finding {
      location := some (broken.cursor 12)
      problem := .expected (.symbol ";")
      severity := .fatal }) := by
  obtain ⟨body, gap, htext, hgap, -, hbroken⟩ :=
    statementForm_missing_semicolon {} .const (by decide) [] "const a=true;"
      (.declaration (.constant "a" (.bool true)
        (some ((Source.mk [] "const a=true;").cursor 6)))) (by rfl)
  have hbefore : body ++ gap = "const a=true" :=
    List.append_cancel_right ((List.append_assoc body gap [';']).trans htext.symm)
  have hempty : gap = [] := by
    rcases List.eq_nil_or_concat gap with rfl | ⟨gap, ch, rfl⟩
    · rfl
    · have hlast : some 'e' = some ch := by
        calc some 'e' = List.getLast? (body ++ gap.concat ch) := by rw [hbefore]; rfl
          _ = some ch := by simp
      obtain rfl := Option.some.inj hlast
      exact absurd (hgap 'e' (by simp)) (by decide)
  obtain rfl : body = "const a=true" := by rwa [hempty, List.append_nil] at hbefore
  refine hbroken [' '] "let" (by decide) (.inr ⟨by decide, ?_, fun hif => ?_⟩)
  · exact Text.stops_cons.2 (by decide)
  · exact absurd hif.1 (by decide)

end Parser

end EventRules
