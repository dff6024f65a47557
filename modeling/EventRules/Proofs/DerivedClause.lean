/-
# Derived clauses

The clauses of a block as derivations between two cursors: `match` with a matcher, and `fire` with
the items of a creator in braces and perhaps a condition behind them. Clauses are read exactly where
they are derived, except that a creator without a condition must not be followed by `if`.

Like matchers, clauses are portable. Whether a clause ends with a closing brace is decided by the
form of the matcher it ends with, if it ends with one.
-/

import EventRules.Proofs.Portable

namespace EventRules

/-! ### The grammar -/

section Grammar

variable (constants : Table Text Literal)

/-- The keyword `match` and a matcher. -/
def MatchAt (c : Cursor) (m : Matcher) (d : Cursor) : Prop :=
  ∃ c₁ c₂, c.Word "match" c₁ ∧ c₁.Blanks c₂ ∧ MatcherAt constants c₂ m d

/-- A condition after `if`, or none. -/
inductive ConditionAt : Cursor → Option Matcher → Cursor → Prop
  | none {c : Cursor} (hc : c.inSource) : ConditionAt c none c
  | some {c c₁ c₂ c₃ d : Cursor} {m : Matcher} (hgap : c.Spaced c₁) (hword : c₁.Word "if" c₂)
      (hgap' : c₂.Spaced c₃) (hclause : MatchAt constants c₃ m d) : ConditionAt c (some m) d

/-- The keyword `fire`, the items of a creator in braces, and its condition. -/
def FireAt (c : Cursor) (k : Creator) (d : Cursor) : Prop :=
  ∃ c₁ c₂ c₃, c.Word "fire" c₁ ∧ c₁.Mark '{' c₂ ∧
    BracedAt constants c₂ k.extractor k.producer c₃ ∧ ConditionAt constants c₃ k.guard d

end Grammar

/-- The keyword `if` follows after space. -/
def Cursor.IfAhead (c : Cursor) : Prop :=
  c.rest.takeWhile isSpace ≠ [] ∧ c.skipSpace.atKeyword "if"

variable {constants : Table Text Literal} {c d : Cursor}

theorem Cursor.Mark.inSource {m : Char} (h : c.Mark m d) : d.inSource := by
  obtain ⟨b, -, hcross⟩ := h
  exact hcross.inSource

theorem BracedAt.mark {ν : Type} [ItemName ν] {e : Extractor} {i : Item ν}
    (h : BracedAt constants c e i d) : ∃ b : Cursor, b.Mark '}' d := by
  cases h with
  | alone _ _ hclose | extraction _ _ _ _ hclose => exact ⟨_, hclose⟩

namespace Parser

/-! ### Clauses are read where they are derived -/

theorem nextKeyword_eq_ok_iff {word : Text} (hword : word.IsName) {x : Unit} :
    (nextKeyword word).outcome c = .ok (x, d) ↔ ∃ b, c.Spaced b ∧ b.Word word d := by
  have hopens : (keyword word).Opens fun ch => !isSpace ch :=
    (keyword_opens hword.1).mono fun ch hch => by simp [not_isSpace_of_isNameStart ch hch]
  rw [nextKeyword, space_bind_eq_ok_iff hopens]
  refine exists_congr fun b => ?_
  rw [← and_assoc, keyword_eq_ok_iff]
  rfl

variable [NestingLimit]

/-- A clause is read exactly where it is derived, if its matcher is nested within the limit. -/
theorem matchClause_eq_ok_iff {m : Matcher} :
    (matchClause constants).outcome c = .ok (m, d) ↔
      MatchAt constants c m d ∧ m.depth ≤ NestingLimit.levels := by
  have hopens : (matcher constants).Opens fun ch => !isSpace ch := matcherIn_opens constants _
  rw [matchClause, bind_outcome_eq_ok_iff]
  constructor
  · rintro ⟨_, c₁, hword, h⟩
    rw [committed_eq_ok_iff, outcome_bind, outcome_skipSpace, ok_bind,
      hopens.outcome_skipSpace_eq_ok_iff] at h
    obtain ⟨c₂, hspace, h⟩ := h
    obtain ⟨hm, hdepth⟩ := matcher_eq_ok_iff.1 h
    exact ⟨⟨c₁, c₂, keyword_eq_ok_iff.1 hword, hspace, hm⟩, hdepth⟩
  · rintro ⟨⟨c₁, c₂, hword, hspace, hm⟩, hdepth⟩
    refine ⟨(), c₁, keyword_eq_ok_iff.2 hword, ?_⟩
    rw [committed_eq_ok_iff, outcome_bind, outcome_skipSpace, ok_bind,
      hopens.outcome_skipSpace_eq_ok_iff]
    exact ⟨c₂, hspace, matcher_eq_ok_iff.2 ⟨hm, hdepth⟩⟩

theorem matchClause_opens : (matchClause constants).Opens (· = 'm') :=
  (keyword_opens (Text.starts_cons.2 (by decide))).bind

theorem fireClause_opens : (fireClause constants).Opens (· = 'f') :=
  (keyword_opens (Text.starts_cons.2 (by decide))).bind

/-- A condition is read exactly where it is derived. It is missing only where `if` does not come
next. -/
theorem condition_eq_ok_iff {guard : Option Matcher} (hc : c.inSource) :
    (condition constants).outcome c = .ok (guard, d) ↔
      ConditionAt constants c guard d ∧ (∀ m ∈ guard, m.depth ≤ NestingLimit.levels) ∧
        (guard = none → ¬ d.IfAhead) := by
  have hopens : (matchClause constants).Opens fun ch => !isSpace ch :=
    matchClause_opens.mono fun ch hch => by
      obtain rfl := of_decide_eq_true hch
      rfl
  have hif : (nextKeyword "if").Commits Cursor.IfAhead := nextKeyword_commits "if"
  rw [condition, bind_outcome_eq_ok_iff]
  constructor
  · rintro ⟨o, c₂, ho, h⟩
    rcases hif.optional_eq_ok_iff.1 ho with ⟨_, rfl, hword⟩ | ⟨rfl, rfl, hhead⟩
    · obtain ⟨c₁, hgap, hword⟩ := (nextKeyword_eq_ok_iff (by decide)).1 hword
      change (committed _).outcome c₂ = _ at h
      rw [committed_eq_ok_iff, space_bind_eq_ok_iff hopens.bind] at h
      obtain ⟨c₃, hspace, hne, h⟩ := h
      obtain ⟨m, _, hm, heq⟩ := bind_outcome_eq_ok_iff.1 h
      cases heq
      obtain ⟨hclause, hdepth⟩ := matchClause_eq_ok_iff.1 hm
      refine ⟨.some hgap hword ⟨hspace, hne⟩ hclause, fun _ hmem => ?_, nofun⟩
      obtain rfl := Option.mem_some.1 hmem
      exact hdepth
    · cases h
      exact ⟨.none hc, nofun, fun _ => hhead⟩
  · rintro ⟨h, hdepth, hahead⟩
    cases h with
    | none => exact ⟨none, c, hif.optional_eq_ok_iff.2 (.inr ⟨rfl, rfl, hahead rfl⟩), rfl⟩
    | @some c₁ c₂ c₃ _ m hgap hword hgap' hclause =>
      have hnext : (nextKeyword "if").outcome c = .ok ((), c₂) :=
        (nextKeyword_eq_ok_iff (by decide)).2 ⟨c₁, hgap, hword⟩
      refine ⟨some (), c₂, hif.optional_eq_ok_iff.2 (.inl ⟨(), rfl, hnext⟩), ?_⟩
      change (committed _).outcome c₂ = _
      rw [committed_eq_ok_iff, space_bind_eq_ok_iff hopens.bind]
      exact ⟨c₃, hgap'.1, hgap'.2, bind_outcome_eq_ok_iff.2
        ⟨m, d, matchClause_eq_ok_iff.2 ⟨hclause, hdepth m rfl⟩, rfl⟩⟩

/-- A creator is read exactly where it is derived, if its condition is nested within the limit. -/
theorem fireClause_eq_ok_iff {k : Creator} :
    (fireClause constants).outcome c = .ok (k, d) ↔
      FireAt constants c k d ∧ (∀ m ∈ k.guard, m.depth ≤ NestingLimit.levels) ∧
        (k.guard = none → ¬ d.IfAhead) := by
  have hproducers : ∀ n : ProducerName,
      ItemName.ofSpelling? ExtractorName (ItemName.spelling n) = none := by
    intro n
    cases n <;> rfl
  rw [fireClause, bind_outcome_eq_ok_iff]
  constructor
  · rintro ⟨_, c₁, hword, h⟩
    rw [committed_eq_ok_iff, bind_outcome_eq_ok_iff] at h
    obtain ⟨_, c₂, hopen, h⟩ := h
    have hopen := (nextSymbol_eq_ok_iff (m := '{') (by decide)).1 hopen
    rw [producerCall, braced_eq_ok_iff hproducers hopen.inSource] at h
    obtain ⟨e, p, c₃, hbraced, h⟩ := h
    obtain ⟨guard, _, hguard, heq⟩ := bind_outcome_eq_ok_iff.1 h
    cases heq
    obtain ⟨b, hclose⟩ := hbraced.mark
    obtain ⟨hcondition, hdepth, hahead⟩ := (condition_eq_ok_iff hclose.inSource).1 hguard
    exact ⟨⟨c₁, c₂, c₃, keyword_eq_ok_iff.1 hword, hopen, hbraced, hcondition⟩, hdepth, hahead⟩
  · rintro ⟨⟨c₁, c₂, c₃, hword, hopen, hbraced, hcondition⟩, hdepth, hahead⟩
    refine ⟨(), c₁, keyword_eq_ok_iff.2 hword, ?_⟩
    rw [committed_eq_ok_iff, bind_outcome_eq_ok_iff]
    refine ⟨(), c₂, (nextSymbol_eq_ok_iff (m := '{') (by decide)).2 hopen, ?_⟩
    rw [producerCall, braced_eq_ok_iff hproducers hopen.inSource]
    obtain ⟨b, hclose⟩ := hbraced.mark
    exact ⟨k.extractor, k.producer, c₃, hbraced, bind_outcome_eq_ok_iff.2
      ⟨k.guard, d, (condition_eq_ok_iff hclose.inSource).2 ⟨hcondition, hdepth, hahead⟩, rfl⟩⟩

end Parser

/-! ### Clauses are portable -/

theorem MatchAt.portable {m : Matcher} (h : MatchAt constants c m d) :
    Cursor.Portable (MatchAt constants · m ·) c d := by
  obtain ⟨c₁, c₂, hword, hspace, hm⟩ := h
  refine ((hword.portable.comp hspace.portable).comp hm.portable).mono ?_
  rintro c d ⟨c₂, ⟨c₁, hword, hspace⟩, hm⟩
  exact ⟨c₁, c₂, hword, hspace, hm⟩

theorem ConditionAt.portable {guard : Option Matcher} (h : ConditionAt constants c guard d) :
    Cursor.Portable (ConditionAt constants · guard ·) c d := by
  cases h with
  | none hc =>
    refine (Cursor.portable_crosses (Cursor.crosses_nil_iff.2 ⟨hc, rfl⟩)).mono ?_
    intro c d hcross
    obtain ⟨hc, rfl⟩ := Cursor.crosses_nil_iff.1 hcross
    exact .none hc
  | some hgap hword hgap' hclause =>
    refine (((hgap.portable.comp hword.portable).comp hgap'.portable).comp
      hclause.portable).mono ?_
    rintro c d ⟨_, ⟨_, ⟨_, hgap, hword⟩, hgap'⟩, hclause⟩
    exact .some hgap hword hgap' hclause

/-- A creator is portable. -/
theorem FireAt.portable {k : Creator} (h : FireAt constants c k d) :
    Cursor.Portable (FireAt constants · k ·) c d := by
  obtain ⟨c₁, c₂, c₃, hword, hopen, hbraced, hcondition⟩ := h
  refine (((hword.portable.comp hopen.portable).comp hbraced.portable).comp
    hcondition.portable).mono ?_
  rintro c d ⟨c₃, ⟨c₂, ⟨c₁, hword, hopen⟩, hbraced⟩, hcondition⟩
  exact ⟨c₁, c₂, c₃, hword, hopen, hbraced, hcondition⟩

namespace Parser

variable {t v : Text}

theorem matchClause_portable [NestingLimit] : (matchClause constants).Portable := by
  intro c m d h
  obtain ⟨hm, hdepth⟩ := matchClause_eq_ok_iff.1 h
  exact hm.portable.mono fun _ _ hm => matchClause_eq_ok_iff.2 ⟨hm, hdepth⟩

/-- A creator that is accepted as a whole is read where no name goes on behind it and, if it has no
condition, no condition follows. -/
theorem fireClause_reads_of_accepts [NestingLimit] {k : Creator}
    (h : (fireClause constants).Accepts t k) (hv : v.Stops isNameChar)
    (hif : k.guard = none → Text.Stops (· = 'i') (v.dropWhile isSpace)) :
    (fireClause constants).Reads t v (· = k) := by
  obtain ⟨hfire, hdepth, -⟩ := fireClause_eq_ok_iff.1 (h [])
  intro c hc hrest
  have hcross : c.Crosses t (c.advance t.length) := ⟨hc, ⟨v, hrest.symm⟩, rfl⟩
  have hbehind : (c.advance t.length).rest = v := by
    rw [Cursor.rest_advance, hrest, List.drop_left]
  -- the derivation is carried over, but what follows has to be looked at once more
  refine ⟨k, fireClause_eq_ok_iff.2 ⟨?_, hdepth, ?_⟩, rfl⟩
  · exact hfire.portable.of_crosses (Cursor.crosses_source [] t) hcross (hbehind ▸ hv)
  · rintro hnone ⟨-, hat⟩
    have hhead : (c.advance t.length).skipSpace.rest.head? = some 'i' :=
      Cursor.head?_of_atKeyword hat rfl
    rw [Cursor.rest_skipSpace, hbehind] at hhead
    exact absurd (hif hnone 'i' hhead) (by decide)

end Parser

/-! ### How clauses end -/

/-- Just behind a text is its last character. -/
theorem Cursor.Crosses.previous? {t : Text} (h : c.Crosses t d) (ht : t ≠ []) :
    d.previous? = t.getLast? :=
  h.2.2 ▸ Cursor.previous?_advance ht h.rest_eq

theorem Cursor.Mark.previous? {m : Char} (h : c.Mark m d) : d.previous? = some m := by
  obtain ⟨b, -, hcross⟩ := h
  exact hcross.previous? (List.cons_ne_nil _ _)

/-- An operand ends with a double quote or like a word. -/
theorem OperandAt.previous?_eq {l : Literal} (h : OperandAt constants c l d) :
    ∃ ch, d.previous? = some ch ∧ (ch = '"' ∨ isWordChar ch = true) := by
  have hliteral : Parser.literal.outcome c = .ok (l, d) →
      ∃ ch, d.previous? = some ch ∧ (ch = '"' ∨ isWordChar ch = true) := by
    intro hok
    obtain ⟨u, hcross, hu, -⟩ := Parser.literal_eq_ok_iff.1 hok
    rw [hcross.previous? hu.ne_nil]
    exact hu.getLast?_eq
  rw [OperandAt, Parser.outcome_literalOrConstant] at h
  split at h
  · exact hliteral h
  · next r hname =>
    split at h
    · cases h
      obtain ⟨hword, hat⟩ := Parser.name_eq_ok_iff.1 hname
      obtain ⟨ch, hch, hend⟩ := hword.endsWord
      exact ⟨ch, ((Cursor.word_iff.2 hat).1.previous? hword.1.ne_nil).trans hch, .inr hend⟩
    · exact hliteral h

/-- An operand does not end with a brace. -/
theorem OperandAt.previous?_ne {l : Literal} (h : OperandAt constants c l d) :
    d.previous? ≠ some '}' := by
  obtain ⟨ch, hch, hkind⟩ := h.previous?_eq
  rw [hch]
  rintro ⟨⟩
  exact absurd hkind (by decide)

/-- The forms of a matcher that end with a closing brace. -/
def MatcherForm.braced : List MatcherForm :=
  [block, negation, disjunction, conjunction]

/-- A matcher starts with the head of a form, and this form decides how it ends. -/
theorem MatcherAt.exists_form {m : Matcher} (h : MatcherAt constants c m d) :
    ∃ form : MatcherForm, form.Head c ∧ (d.previous? = some '}' ↔ form ∈ MatcherForm.braced) := by
  cases h with
  | event hword _ _ hcode =>
    exact ⟨.event, (Cursor.word_iff.1 hword).1, iff_of_false hcode.previous?_ne (by decide)⟩
  | producer hword _ _ haddress =>
    exact ⟨.producer, (Cursor.word_iff.1 hword).1, iff_of_false haddress.previous?_ne (by decide)⟩
  | tick hword =>
    refine ⟨.tick, (Cursor.word_iff.1 hword).1, iff_of_false ?_ (by decide)⟩
    rw [hword.1.previous? (by decide)]
    decide
  | filter hopen _ _ hclose =>
    exact ⟨.block, (Cursor.crosses_mark_iff.1 hopen).1, iff_of_true hclose.previous? (by decide)⟩
  | extraction hopen _ _ _ _ hclose =>
    exact ⟨.block, (Cursor.crosses_mark_iff.1 hopen).1, iff_of_true hclose.previous? (by decide)⟩
  | not hword _ _ _ hclose =>
    exact ⟨.negation, (Cursor.word_iff.1 hword).1, iff_of_true hclose.previous? (by decide)⟩
  | or hword _ _ _ _ _ _ hclose =>
    exact ⟨.disjunction, (Cursor.word_iff.1 hword).1, iff_of_true hclose.previous? (by decide)⟩
  | and hword _ _ _ _ _ _ hclose =>
    exact ⟨.conjunction, (Cursor.word_iff.1 hword).1, iff_of_true hclose.previous? (by decide)⟩

namespace Parser

variable {t u : Text} {m : Matcher}

variable [NestingLimit]

/-- The text ends with `match` and a matcher of the form. -/
def LastForm (scope : Scope) (t : Text) (m : Matcher) (form : MatcherForm) : Prop :=
  ∃ u s body : Text, t = u ++ ("match" ++ (s ++ body)) ∧ (∀ ch ∈ s, isSpace ch) ∧
    (matcher scope).Accepts body m ∧ form.Head (Source.mk [] body).start

/-- The form of the matcher at its end decides whether a text ends with a closing brace. -/
theorem LastForm.getLast?_eq_iff {scope : Scope} {form : MatcherForm}
    (h : LastForm scope t m form) : t.getLast? = some '}' ↔ form ∈ MatcherForm.braced := by
  obtain ⟨u, s, body, rfl, -, hbody, hform⟩ := h
  obtain ⟨other, hother, hlast⟩ := (matcher_eq_ok_iff.1 (hbody [])).1.exists_form
  obtain rfl := hform.unique hother
  have hne : body ≠ [] := by
    rintro rfl
    cases hform.head?
  rw [← hlast, (Cursor.crosses_source [] body).previous? hne,
    List.getLast?_append_of_ne_nil _ (by simp), List.getLast?_append_of_ne_nil _ (by simp [hne]),
    List.getLast?_append_of_ne_nil _ hne]

/-- A text that ends with a clause for a matcher ends with a matcher of some form. -/
theorem exists_lastForm {scope : Scope} {c₁ : Cursor} (hu : c.Crosses u c₁)
    (h : MatchAt scope.constants c₁ m d) (hdepth : m.depth ≤ NestingLimit.levels)
    (ht : c.Crosses t d) : ∃ form, LastForm scope t m form := by
  obtain ⟨c₂, c₃, hword, ⟨s, hs, hspace⟩, hm⟩ := h
  obtain ⟨body, -, hbody, -⟩ := hm.portable
  obtain rfl := ht.text_eq (hu.trans (hword.1.trans (hspace.trans hbody)))
  have hsource : ∀ name : Text, MatcherAt scope.constants (Source.mk name body).start m
      ((Source.mk name body).cursor body.length) := hm.portable.source hbody
  obtain ⟨form, hform, -⟩ := (hsource []).exists_form
  exact ⟨form, u, s, body, rfl, hs, fun name => matcher_eq_ok_iff.2 ⟨hsource name, hdepth⟩, hform⟩

/-- The text ends with a matcher, and ends with a closing brace exactly if this matcher is of a form
that does. -/
def EndsByForm (scope : Scope) (t : Text) (m : Matcher) : Prop :=
  (∃ form, LastForm scope t m form) ∧
    ∀ form, LastForm scope t m form → (t.getLast? = some '}' ↔ form ∈ MatcherForm.braced)

/-- A clause ends with a brace exactly if the form of its matcher does. -/
theorem endsByForm_matchClause {scope : Scope} (h : (matchClause scope).Accepts t m) :
    EndsByForm scope t m := by
  obtain ⟨hclause, hdepth⟩ := matchClause_eq_ok_iff.1 (h [])
  have hstart := Cursor.crosses_nil_iff.2 ⟨Cursor.inSource_start (Source.mk [] t), rfl⟩
  exact ⟨exists_lastForm hstart hclause hdepth (Cursor.crosses_source [] t),
    fun _ h => h.getLast?_eq_iff⟩

/-- A creator with a guard ends as its guard does. -/
theorem endsByForm_fireClause {scope : Scope} {k : Creator} (h : (fireClause scope).Accepts t k)
    (hm : m ∈ k.guard) : EndsByForm scope t m := by
  obtain ⟨hfire, hdepth, -⟩ := fireClause_eq_ok_iff.1 (h [])
  obtain ⟨c₁, c₂, c₃, hword, hopen, hbraced, hguard⟩ := hfire
  rw [Option.mem_def.1 hm] at hguard
  cases hguard with
  | some hspace hif hspace' hclause =>
    obtain ⟨u, -, hu, -⟩ := ((((hword.portable.comp hopen.portable).comp hbraced.portable).comp
      hspace.portable).comp hif.portable).comp hspace'.portable
    exact ⟨exists_lastForm hu hclause (hdepth m hm) (Cursor.crosses_source [] t),
      fun _ h => h.getLast?_eq_iff⟩

/-- A creator without a guard ends with the brace behind its items. -/
theorem getLast?_fireClause {k : Creator} (h : (fireClause constants).Accepts t k)
    (hguard : k.guard = none) : t.getLast? = some '}' := by
  obtain ⟨⟨c₁, c₂, c₃, -, -, hbraced, hcondition⟩, -⟩ := fireClause_eq_ok_iff.1 (h [])
  rw [hguard] at hcondition
  cases hcondition with
  | none =>
    obtain ⟨b, hclose⟩ := hbraced.mark
    have hne : t ≠ [] := (fireClause_opens (h [])).ne_nil
    rw [← (Cursor.crosses_source [] t).previous? hne]
    exact hclose.previous?

end Parser

end EventRules
