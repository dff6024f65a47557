/-
# Derived matchers

A matcher is read exactly where it is derived from the grammar, as long as it is not nested too
deeply. The head of a form decides which rule can apply, so at most one matcher is derived from a
given place, and it ends at one place only.
-/

import EventRules.Proofs.Derivation

namespace EventRules

variable {constants : Table Text Literal}

/-- Behind an opening brace: an item, alone or after an extractor, and the closing brace. -/
inductive BracedAt (constants : Table Text Literal) {ν : Type} [ItemName ν] :
    Cursor → Extractor → Item ν → Cursor → Prop
  | alone {c c₁ c₂ d : Cursor} {i : Item ν} (hspace : c.Blanks c₁)
      (hitem : CallAt constants c₁ i c₂) (hclose : c₂.Mark '}' d) :
      BracedAt constants c .nothing i d
  | extraction {c c₁ c₂ c₃ c₄ d : Cursor} {e : Extractor} {i : Item ν} (hspace : c.Blanks c₁)
      (hextractor : CallAt constants c₁ e c₂) (hspace' : c₂.Blanks c₃)
      (hitem : CallAt constants c₃ i c₄) (hclose : c₄.Mark '}' d) : BracedAt constants c e i d

/-- A block is an opening brace and what is derived behind it. -/
theorem MatcherAt.braced {c c₁ d : Cursor} {e : Extractor} {f : Filter}
    (hopen : c.Crosses "\x7b" c₁) (h : BracedAt constants c₁ e f d) :
    MatcherAt constants c (.single e f) d := by
  cases h with
  | alone hspace hitem hclose => exact .filter hopen hspace hitem hclose
  | extraction hspace hextractor hspace' hitem hclose =>
    exact .extraction hopen hspace hextractor hspace' hitem hclose

/-! ### Forms of a matcher -/

namespace Parser

variable {c d : Cursor} {inner : Parser Matcher} {m : Matcher} {word : Text}

/-- A keyword and a number after it are read as the matcher for the number. -/
theorem numberForm_eq_ok_iff {build : Nat → Matcher} :
    (numberForm constants word build).outcome c = .ok (m, d) ↔
      ∃ c₁ c₂ n, c.Word word c₁ ∧ c₁.Blanks c₂ ∧ c₂ ≠ c₁ ∧
        OperandAt constants c₂ (.int .u16 n) d ∧ m = build n := by
  have hopens : (u16Operand constants).Opens fun ch => !isSpace ch := operand_opens .u16
  rw [numberForm, bind_outcome_eq_ok_iff]
  constructor
  · rintro ⟨_, c₁, hword, h⟩
    rw [committed_eq_ok_iff, space_bind_eq_ok_iff hopens.bind] at h
    obtain ⟨c₂, hspace, hne, h⟩ := h
    obtain ⟨n, _, hn, heq⟩ := bind_outcome_eq_ok_iff.1 h
    cases heq
    exact ⟨c₁, c₂, n, keyword_eq_ok_iff.1 hword, hspace, hne, u16Operand_eq_ok_iff.1 hn, rfl⟩
  · rintro ⟨c₁, c₂, n, hword, hspace, hne, hn, rfl⟩
    refine ⟨(), c₁, keyword_eq_ok_iff.2 hword, ?_⟩
    rw [committed_eq_ok_iff, space_bind_eq_ok_iff hopens.bind]
    exact ⟨c₂, hspace, hne, bind_outcome_eq_ok_iff.2 ⟨n, d, u16Operand_eq_ok_iff.2 hn, rfl⟩⟩

/-- A negation is read exactly where its keyword and an operand in braces stand. -/
theorem unaryForm_eq_ok_iff (hinner : inner.Opens fun ch => !isSpace ch)
    {build : Matcher → Matcher} :
    (unaryForm inner word build).outcome c = .ok (m, d) ↔
      ∃ c₁ c₂ c₃ c₄ x, c.Word word c₁ ∧ c₁.Mark '{' c₂ ∧ c₂.Blanks c₃ ∧
        inner.outcome c₃ = .ok (x, c₄) ∧ c₄.Mark '}' d ∧ m = build x := by
  rw [unaryForm, bind_outcome_eq_ok_iff]
  constructor
  · rintro ⟨_, c₁, hword, h⟩
    rw [committed_eq_ok_iff] at h
    obtain ⟨c₂, c₃, x, c₄, hopen, hspace, hx, h⟩ :=
      (opening_eq_ok_iff (m := '{') (by decide) hinner).1 h
    obtain ⟨hclose, rfl⟩ := (closing_eq_ok_iff (m := '}') (by decide)).1 h
    exact ⟨c₁, c₂, c₃, c₄, x, keyword_eq_ok_iff.1 hword, hopen, hspace, hx, hclose, rfl⟩
  · rintro ⟨c₁, c₂, c₃, c₄, x, hword, hopen, hspace, hx, hclose, rfl⟩
    refine ⟨(), c₁, keyword_eq_ok_iff.2 hword, ?_⟩
    rw [committed_eq_ok_iff]
    exact (opening_eq_ok_iff (by decide) hinner).2 ⟨c₂, c₃, x, c₄, hopen, hspace, hx,
      (closing_eq_ok_iff (by decide)).2 ⟨hclose, rfl⟩⟩

/-- A matcher with two operands is read exactly where its keyword and both operands in braces
stand. -/
theorem binaryForm_eq_ok_iff (hinner : inner.Opens fun ch => !isSpace ch)
    {build : Matcher → Matcher → Matcher} :
    (binaryForm inner word build).outcome c = .ok (m, d) ↔
      ∃ c₁ c₂ c₃ c₄ c₅ c₆ c₇ l r, c.Word word c₁ ∧ c₁.Mark '{' c₂ ∧ c₂.Blanks c₃ ∧
        inner.outcome c₃ = .ok (l, c₄) ∧ c₄.Mark ',' c₅ ∧ c₅.Blanks c₆ ∧
        inner.outcome c₆ = .ok (r, c₇) ∧ c₇.Mark '}' d ∧ m = build l r := by
  rw [binaryForm, bind_outcome_eq_ok_iff]
  constructor
  · rintro ⟨_, c₁, hword, h⟩
    rw [committed_eq_ok_iff] at h
    obtain ⟨c₂, c₃, l, c₄, hopen, hspace, hl, h⟩ :=
      (opening_eq_ok_iff (m := '{') (by decide) hinner).1 h
    obtain ⟨c₅, c₆, r, c₇, hcomma, hspace', hr, h⟩ :=
      (opening_eq_ok_iff (m := ',') (by decide) hinner).1 h
    obtain ⟨hclose, rfl⟩ := (closing_eq_ok_iff (m := '}') (by decide)).1 h
    exact ⟨c₁, c₂, c₃, c₄, c₅, c₆, c₇, l, r, keyword_eq_ok_iff.1 hword, hopen, hspace, hl, hcomma,
      hspace', hr, hclose, rfl⟩
  · rintro ⟨c₁, c₂, c₃, c₄, c₅, c₆, c₇, l, r, hword, hopen, hspace, hl, hcomma, hspace', hr,
      hclose, rfl⟩
    refine ⟨(), c₁, keyword_eq_ok_iff.2 hword, ?_⟩
    rw [committed_eq_ok_iff]
    exact (opening_eq_ok_iff (by decide) hinner).2 ⟨c₂, c₃, l, c₄, hopen, hspace, hl,
      (opening_eq_ok_iff (by decide) hinner).2 ⟨c₅, c₆, r, c₇, hcomma, hspace', hr,
        (closing_eq_ok_iff (by decide)).2 ⟨hclose, rfl⟩⟩⟩

/-- A name that no extractor has is not that of an extractor. -/
theorem not_head_extractor {ν : Type} [ItemName ν] [Spelled ν]
    (hnames : ∀ n : ν, ItemName.ofSpelling? ExtractorName (ItemName.spelling n) = none)
    (h : ItemName.Head ν c) : ¬ ItemName.Head ExtractorName c := by
  rintro ⟨e, he⟩
  obtain ⟨n, hn⟩ := h
  rw [Cursor.atKeyword_iff_takeWhile (Spelled.isName e)] at he
  rw [Cursor.atKeyword_iff_takeWhile (Spelled.isName n), he] at hn
  have hextractor := Spelled.ofSpelling?_eq_some_iff.2 hn
  rw [hnames n] at hextractor
  cases hextractor

/-- An extractor is read where one is called, and none where none is named. -/
theorem optionalExtractor_eq_ok_iff {e : Extractor} :
    (optionalExtractor constants).outcome c = .ok (e, d) ↔
      CallAt constants c e d ∨ ¬ ItemName.Head ExtractorName c ∧ e = .nothing ∧ d = c := by
  have hcommits : (extractorCall constants).Commits (ItemName.Head ExtractorName) :=
    itemCall_commits .unknownExtractor (literalOrConstant constants)
  rw [optionalExtractor, bind_outcome_eq_ok_iff]
  constructor
  · rintro ⟨r, _, hr, heq⟩
    cases heq
    rcases hcommits.optional_eq_ok_iff.1 hr with ⟨e, rfl, hcall⟩ | ⟨rfl, rfl, hhead⟩
    · exact .inl (itemCall_eq_ok_iff.1 hcall)
    · exact .inr ⟨hhead, rfl, rfl⟩
  · rintro (hcall | ⟨hhead, rfl, rfl⟩)
    · exact ⟨some e, d, hcommits.optional_eq_ok_iff.2
        (.inl ⟨e, rfl, itemCall_eq_ok_iff.2 hcall⟩), rfl⟩
    · exact ⟨none, d, hcommits.optional_eq_ok_iff.2 (.inr ⟨rfl, rfl, hhead⟩), rfl⟩

/-- What stands in braces is read exactly where it is derived. -/
theorem braced_eq_ok_iff {α ν : Type} [ItemName ν] [Spelled ν] {unknown : Problem}
    (hnames : ∀ n : ν, ItemName.ofSpelling? ExtractorName (ItemName.spelling n) = none)
    {f : Extractor → Item ν → Parser α} {r : α × Cursor} (hc : c.inSource) :
    (do skipSpace
        let e ← optionalExtractor constants
        skipSpace
        let i ← itemCall ν unknown constants
        nextSymbol "\x7d"
        f e i : Parser α).outcome c = .ok r ↔
      ∃ e i d, BracedAt constants c e i d ∧ (f e i).outcome d = .ok r := by
  rw [outcome_bind, outcome_skipSpace, ok_bind, bind_outcome_eq_ok_iff]
  constructor
  · rintro ⟨e, c₂, he, h⟩
    rw [outcome_bind, outcome_skipSpace, ok_bind,
      itemCall_opens.bind.outcome_skipSpace_eq_ok_iff] at h
    obtain ⟨c₃, hspace, h⟩ := h
    obtain ⟨i, c₄, hcall, h⟩ := bind_outcome_eq_ok_iff.1 h
    obtain ⟨_, d, hclose, h⟩ := bind_outcome_eq_ok_iff.1 h
    have hbefore := Cursor.blanks_skipSpace hc
    have hcall := itemCall_eq_ok_iff.1 hcall
    have hclose := (nextSymbol_eq_ok_iff (m := '}') (by decide)).1 hclose
    refine ⟨e, i, d, ?_, h⟩
    rcases optionalExtractor_eq_ok_iff.1 he with he | ⟨-, rfl, rfl⟩
    · exact .extraction hbefore he hspace hcall hclose
    · have hsame := hspace.skipSpace_eq hcall.stops
      rw [Cursor.skipSpace_skipSpace] at hsame
      subst hsame
      exact .alone hbefore hcall hclose
  · rintro ⟨e, i, d, hbraced, h⟩
    have hrest : ∀ {b c₃ c₄ : Cursor}, b.Blanks c₃ → CallAt constants c₃ i c₄ → c₄.Mark '}' d →
        (do skipSpace
            let i ← itemCall ν unknown constants
            nextSymbol "\x7d"
            f e i : Parser α).outcome b = .ok r := by
      intro b c₃ c₄ hspace hcall hclose
      rw [outcome_bind, outcome_skipSpace, ok_bind,
        itemCall_opens.bind.outcome_skipSpace_eq_ok_iff]
      exact ⟨c₃, hspace, bind_outcome_eq_ok_iff.2 ⟨i, c₄, itemCall_eq_ok_iff.2 hcall,
        bind_outcome_eq_ok_iff.2 ⟨(), d, (nextSymbol_eq_ok_iff (by decide)).2 hclose, h⟩⟩⟩
    cases hbraced with
    | @alone c₁ _ _ _ hspace hcall hclose =>
      rw [hspace.skipSpace_eq hcall.stops]
      exact ⟨.nothing, c₁,
        optionalExtractor_eq_ok_iff.2 (.inr ⟨not_head_extractor hnames hcall.head, rfl, rfl⟩),
        hrest (.refl (hspace.leads.inSource hc)) hcall hclose⟩
    | extraction hspace he hspace' hcall hclose =>
      rw [hspace.skipSpace_eq he.stops]
      exact ⟨e, _, optionalExtractor_eq_ok_iff.2 (.inl he), hrest hspace' hcall hclose⟩

/-- A filter is read exactly where it stands in braces, perhaps behind an extractor. -/
theorem blockForm_eq_ok_iff :
    (blockForm constants).outcome c = .ok (m, d) ↔
      ∃ c₁ e f, c.Crosses "\x7b" c₁ ∧ BracedAt constants c₁ e f d ∧ m = .single e f := by
  have hfilters : ∀ n : FilterName,
      ItemName.ofSpelling? ExtractorName (ItemName.spelling n) = none := by
    intro n
    cases n <;> rfl
  rw [blockForm, bind_outcome_eq_ok_iff]
  constructor
  · rintro ⟨_, c₁, hopen, h⟩
    have hopen := symbol_eq_ok_iff.1 hopen
    rw [committed_eq_ok_iff, filterCall, braced_eq_ok_iff hfilters hopen.inSource] at h
    obtain ⟨e, f, _, hbraced, heq⟩ := h
    cases heq
    exact ⟨c₁, e, f, hopen, hbraced, rfl⟩
  · rintro ⟨c₁, e, f, hopen, hbraced, rfl⟩
    refine ⟨(), c₁, symbol_eq_ok_iff.2 hopen, ?_⟩
    rw [committed_eq_ok_iff, filterCall, braced_eq_ok_iff hfilters hopen.inSource]
    exact ⟨e, f, d, hbraced, rfl⟩

/-! ### Matchers -/

/-- What is read as a matcher starts with the head of a form. -/
theorem exists_head_of_matcherForms {r : Matcher × Cursor}
    (h : (alt (MatcherForm.all.map (matcherForm constants inner))).outcome c = .ok r) :
    ∃ form : MatcherForm, form.Head c := by
  obtain ⟨p, hp, hok⟩ := exists_of_choice_eq_ok h
  obtain ⟨form, -, rfl⟩ := List.mem_map.1 hp
  refine ⟨form, not_not.1 fun hhead => ?_⟩
  exact not_declines_of_ok hok ((matcherForm_commits constants inner form c).2 hhead)

theorem matcherIn_opens (constants : Table Text Literal) (levels : Nat) :
    (matcherIn constants MatcherForm.all levels).Opens fun ch => !isSpace ch := by
  intro c r hok
  cases levels with
  | zero => cases hok
  | succ levels =>
    obtain ⟨form, hform⟩ := exists_head_of_matcherForms hok
    rw [Text.Starts, hform.head?]
    cases form <;> decide

/-- What is read as a matcher is derived, and it is nested in the given levels. -/
theorem matcherAt_of_matcherIn {levels : Nat}
    (h : (matcherIn constants MatcherForm.all levels).outcome c = .ok (m, d)) :
    MatcherAt constants c m d ∧ m.depth ≤ levels := by
  induction levels generalizing c m d with
  | zero => cases h
  | succ levels ih =>
    have hopens := matcherIn_opens constants levels
    obtain ⟨form, hform⟩ := exists_head_of_matcherForms h
    rw [matcherIn, outcome_matcherForms constants _ hform] at h
    cases form with
    | event =>
      obtain ⟨c₁, c₂, n, hword, hspace, hne, hn, rfl⟩ := numberForm_eq_ok_iff.1 h
      exact ⟨.event hword hspace hne hn, Nat.le_add_left 1 _⟩
    | producer =>
      obtain ⟨c₁, c₂, n, hword, hspace, hne, hn, rfl⟩ := numberForm_eq_ok_iff.1 h
      exact ⟨.producer hword hspace hne hn, Nat.le_add_left 1 _⟩
    | tick =>
      obtain ⟨_, _, hword, heq⟩ := bind_outcome_eq_ok_iff.1 h
      cases heq
      exact ⟨.tick (keyword_eq_ok_iff.1 hword), Nat.le_add_left 1 _⟩
    | block =>
      obtain ⟨c₁, e, f, hopen, hbraced, rfl⟩ := blockForm_eq_ok_iff.1 h
      exact ⟨.braced hopen hbraced, Nat.le_add_left 1 _⟩
    | negation =>
      obtain ⟨c₁, c₂, c₃, c₄, x, hword, hopen, hspace, hx, hclose, rfl⟩ :=
        (unaryForm_eq_ok_iff hopens).1 h
      obtain ⟨hx, hdepth⟩ := ih hx
      exact ⟨.not hword hopen hspace hx hclose, Nat.succ_le_succ hdepth⟩
    | disjunction =>
      obtain ⟨c₁, c₂, c₃, c₄, c₅, c₆, c₇, l, r, hword, hopen, hspace, hl, hcomma, hspace', hr,
        hclose, rfl⟩ := (binaryForm_eq_ok_iff hopens).1 h
      obtain ⟨hl, hleft⟩ := ih hl
      obtain ⟨hr, hright⟩ := ih hr
      exact ⟨.or hword hopen hspace hl hcomma hspace' hr hclose,
        Nat.succ_le_succ (Nat.max_le.2 ⟨hleft, hright⟩)⟩
    | conjunction =>
      obtain ⟨c₁, c₂, c₃, c₄, c₅, c₆, c₇, l, r, hword, hopen, hspace, hl, hcomma, hspace', hr,
        hclose, rfl⟩ := (binaryForm_eq_ok_iff hopens).1 h
      obtain ⟨hl, hleft⟩ := ih hl
      obtain ⟨hr, hright⟩ := ih hr
      exact ⟨.and hword hopen hspace hl hcomma hspace' hr hclose,
        Nat.succ_le_succ (Nat.max_le.2 ⟨hleft, hright⟩)⟩

/-- A matcher that is derived is read, if there are enough levels for it. -/
theorem matcherIn_of_matcherAt {levels : Nat} (h : MatcherAt constants c m d)
    (hdepth : m.depth ≤ levels) :
    (matcherIn constants MatcherForm.all levels).outcome c = .ok (m, d) := by
  induction levels generalizing c m d with
  | zero => cases m <;> cases hdepth
  | succ levels ih =>
    have hopens := matcherIn_opens constants levels
    -- each rule starts with the head of its form, and so this form is taken
    have hform : ∀ form : MatcherForm, form.Head c →
        (matcherForm constants (matcherIn constants MatcherForm.all levels) form).outcome c =
          .ok (m, d) →
        (matcherIn constants MatcherForm.all (levels + 1)).outcome c = .ok (m, d) :=
      fun form hhead hok => (outcome_matcherForms constants _ hhead).trans hok
    cases h with
    | event hword hspace hne hn =>
      exact hform .event (Cursor.word_iff.1 hword).1
        (numberForm_eq_ok_iff.2 ⟨_, _, _, hword, hspace, hne, hn, rfl⟩)
    | producer hword hspace hne hn =>
      exact hform .producer (Cursor.word_iff.1 hword).1
        (numberForm_eq_ok_iff.2 ⟨_, _, _, hword, hspace, hne, hn, rfl⟩)
    | tick hword =>
      exact hform .tick (Cursor.word_iff.1 hword).1
        (bind_outcome_eq_ok_iff.2 ⟨(), d, keyword_eq_ok_iff.2 hword, rfl⟩)
    | filter hopen hspace hf hclose =>
      exact hform .block (Cursor.crosses_mark_iff.1 hopen).1
        (blockForm_eq_ok_iff.2 ⟨_, _, _, hopen, .alone hspace hf hclose, rfl⟩)
    | extraction hopen hspace he hspace' hf hclose =>
      exact hform .block (Cursor.crosses_mark_iff.1 hopen).1
        (blockForm_eq_ok_iff.2 ⟨_, _, _, hopen, .extraction hspace he hspace' hf hclose, rfl⟩)
    | not hword hopen hspace hx hclose =>
      have hx := ih hx (Nat.le_of_succ_le_succ hdepth)
      exact hform .negation (Cursor.word_iff.1 hword).1 ((unaryForm_eq_ok_iff hopens).2
        ⟨_, _, _, _, _, hword, hopen, hspace, hx, hclose, rfl⟩)
    | or hword hopen hspace hl hcomma hspace' hr hclose =>
      obtain ⟨hleft, hright⟩ := Nat.max_le.1 (Nat.le_of_succ_le_succ hdepth)
      exact hform .disjunction (Cursor.word_iff.1 hword).1 ((binaryForm_eq_ok_iff hopens).2
        ⟨_, _, _, _, _, _, _, _, _, hword, hopen, hspace, ih hl hleft, hcomma, hspace',
          ih hr hright, hclose, rfl⟩)
    | and hword hopen hspace hl hcomma hspace' hr hclose =>
      obtain ⟨hleft, hright⟩ := Nat.max_le.1 (Nat.le_of_succ_le_succ hdepth)
      exact hform .conjunction (Cursor.word_iff.1 hword).1 ((binaryForm_eq_ok_iff hopens).2
        ⟨_, _, _, _, _, _, _, _, _, hword, hopen, hspace, ih hl hleft, hcomma, hspace',
          ih hr hright, hclose, rfl⟩)

end Parser

/-- At most one matcher is derived from a place, and it ends at one place only. -/
theorem MatcherAt.unique {c d d' : Cursor} {m m' : Matcher} (h : MatcherAt constants c m d)
    (h' : MatcherAt constants c m' d') : m' = m ∧ d' = d := by
  have hread := Parser.matcherIn_of_matcherAt h (Nat.le_max_left m.depth m'.depth)
  have hread' := Parser.matcherIn_of_matcherAt h' (Nat.le_max_right m.depth m'.depth)
  cases hread.symm.trans hread'
  exact ⟨rfl, rfl⟩

namespace Parser

/-- A matcher is read exactly where it is derived from the grammar, up to the limit of nesting,
which is never exceeded within 120 levels; and at most one matcher is derived from a place. -/
theorem matcher_eq_ok_iff_derived [NestingLimit] (c d : Cursor) (m : Matcher) :
    ((matcher constants).outcome c = .ok (m, d) ↔
        MatcherAt constants c m d ∧ m.depth ≤ NestingLimit.levels) ∧
      (m.depth ≤ 120 →
        ((matcher constants).outcome c = .ok (m, d) ↔ MatcherAt constants c m d)) ∧
      ∀ d' m', MatcherAt constants c m d → MatcherAt constants c m' d' → m' = m ∧ d' = d := by
  refine ⟨⟨matcherAt_of_matcherIn, fun h => matcherIn_of_matcherAt h.1 h.2⟩, fun hdepth => ?_,
    fun _ _ => MatcherAt.unique⟩
  have hlevels := Nat.le_trans hdepth NestingLimit.le_levels
  exact ⟨fun h => (matcherAt_of_matcherIn h).1, fun h => matcherIn_of_matcherAt h hlevels⟩

end Parser

end EventRules
