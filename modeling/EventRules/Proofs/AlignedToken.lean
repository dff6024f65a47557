/-
# Tokens on aligned sources

The tokens, lists and literals that are read on one side of an alignment are read on the other. A
token is read where something other than space lies ahead, namely itself, and it may be the last one
of its source. Space, options and repetitions leave something ahead.
-/

import EventRules.Proofs.Alignment
import EventRules.Proofs.LiteralReading

namespace EventRules

namespace Alignment

variable {S : Alignment} {c d : Cursor} {word : Text}

/-- A name holds neither space nor double quotes. -/
theorem solid_isNameChar : Solid isNameChar := by
  decide

/-- A keyword stands at both positions or at neither. -/
theorem atKeyword_iff (hrel : S.Rel c d) (hword : word.IsName) :
    d.atKeyword word ↔ c.atKeyword word := by
  rw [Cursor.atKeyword_iff_takeWhile hword, Cursor.atKeyword_iff_takeWhile hword,
    S.takeWhile_eq hrel solid_isNameChar]

/-- The alignment is kept over a keyword. -/
theorem advance_keyword (hrel : S.Rel c d) (hword : word.IsName) (hat : c.atKeyword word) :
    S.Rel (c.advance word.length) (d.advance word.length) := by
  have hadvance := S.advance_takeWhile hrel solid_isNameChar
  rwa [(Cursor.atKeyword_iff_takeWhile hword).1 hat] at hadvance

/-- Where a keyword stands, something other than space lies ahead. -/
theorem live_of_atKeyword (hword : word.IsName) (hat : c.atKeyword word) : c.Live := by
  apply Cursor.live_of_takeWhile solid_isNameChar
  rw [(Cursor.atKeyword_iff_takeWhile hword).1 hat]
  exact hword.1.ne_nil

/-- A mark that is no space comes next on both sides or on none. -/
theorem peek_eq_iff {m : Char} (hrel : S.Rel c d) (hm : isSpace m = false) :
    d.peek = [m] ↔ c.peek = [m] := by
  have hhead := S.head?_eq_some_iff hrel hm
  exact ⟨fun h => Cursor.peek_of_head? (hhead.1 (Cursor.head?_of_peek h)),
    fun h => Cursor.peek_of_head? (hhead.2 (Cursor.head?_of_peek h))⟩

end Alignment

/-- The literal of a form, if it passes its checks. -/
def LiteralForm.literal? (form : LiteralForm) : Option Literal :=
  form.check.toOption

namespace Parser

variable {S : Alignment} {α γ : Type} {view : α → γ} {E : Cursor → Prop}

/-! ### Single tokens -/

theorem run1_simulates {k : CharClass} (hk : Solid k.contains) :
    S.Simulates Cursor.Live E id (run1 k) (run1 k) where
  before c c' t hok _ := by
    rw [outcome_run1] at hok
    split at hok
    · cases hok
    · next hne => exact Cursor.live_of_takeWhile hk hne
  follows c d c' t hrel hok _ := by
    rw [outcome_run1] at hok
    split at hok
    · cases hok
    · next hne =>
      cases hok
      refine ⟨_, _, ?_, rfl, S.advance_takeWhile hrel hk⟩
      rw [outcome_run1, S.takeWhile_eq hrel hk, if_neg hne]

theorem run1_passes {k : CharClass} (hk : Solid k.contains) :
    S.Passes Cursor.Any (run1 k) (run1 k) := by
  intro c d e hrel _ herror _
  rw [outcome_run1] at herror
  split at herror
  · next hnil =>
    refine ⟨Diagnostic.expected d k.expectation, ?_, rfl⟩
    rw [outcome_run1, S.takeWhile_eq hrel hk, if_pos hnil]
  · cases herror

theorem keyword_simulates {word : Text} (hword : word.IsName) :
    S.Simulates Cursor.Live E id (keyword word) (keyword word) where
  before c c' _ hok _ := by
    rw [outcome_keyword] at hok
    split at hok
    · next hat => exact Alignment.live_of_atKeyword hword hat
    · cases hok
  follows c d c' _ hrel hok _ := by
    rw [outcome_keyword] at hok
    split at hok
    · next hat =>
      cases hok
      refine ⟨_, _, ?_, rfl, S.advance_keyword hrel hword hat⟩
      rw [outcome_keyword, if_pos ((S.atKeyword_iff hrel hword).2 hat)]
    · cases hok

theorem keyword_passes {word : Text} (hword : word.IsName) :
    S.Passes Cursor.Any (keyword word) (keyword word) := by
  intro c d e hrel _ herror _
  rw [outcome_keyword] at herror
  split at herror
  · cases herror
  · next hat =>
    refine ⟨Diagnostic.expected d (.keyword word), ?_, rfl⟩
    rw [outcome_keyword, if_neg (mt (S.atKeyword_iff hrel hword).1 hat)]

theorem symbol_simulates (m : Char) (hm : IsMark m) :
    S.Simulates Cursor.Live E id (symbol [m]) (symbol [m]) where
  before c c' _ hok _ := by
    rw [outcome_symbol] at hok
    split at hok
    · next hpeek => exact Cursor.live_of_head? hm.1 (Cursor.head?_of_peek hpeek)
    · cases hok
  follows c d c' _ hrel hok _ := by
    rw [outcome_symbol] at hok
    split at hok
    · next hpeek =>
      cases hok
      refine ⟨_, _, ?_, rfl, S.advance_mark hrel hm (Cursor.head?_of_peek hpeek)⟩
      rw [outcome_symbol, if_pos ((S.peek_eq_iff hrel hm.1).2 hpeek)]
    · cases hok

theorem symbol_passes (m : Char) (hm : IsMark m) :
    S.Passes Cursor.Any (symbol [m]) (symbol [m]) := by
  intro c d e hrel _ herror _
  rw [outcome_symbol] at herror
  split at herror
  · cases herror
  · next hpeek =>
    refine ⟨Diagnostic.expected d (.symbol [m]), ?_, rfl⟩
    rw [outcome_symbol, if_neg (mt (S.peek_eq_iff hrel hm.1).1 hpeek)]

theorem name_simulates : S.Simulates Cursor.Live E id name name where
  before c c' t hok _ := by
    rw [outcome_name, Cursor.ahead?, List.drop_zero] at hok
    split at hok
    · next hstart => exact Cursor.live_of_starts (by decide) hstart
    · cases hok
  follows c d c' t hrel hok _ := by
    rw [outcome_name, Cursor.ahead?, List.drop_zero] at hok
    split at hok
    · next hstart =>
      cases hok
      refine ⟨_, _, ?_, rfl, S.advance_takeWhile hrel Alignment.solid_isNameChar⟩
      rw [outcome_name, Cursor.ahead?, List.drop_zero, S.head?_any_eq hrel (by decide),
        if_pos hstart, S.takeWhile_eq hrel Alignment.solid_isNameChar]
    · cases hok

theorem name_passes : S.Passes Cursor.Any name name := by
  intro c d e hrel _ herror _
  rw [outcome_name, Cursor.ahead?, List.drop_zero] at herror
  split at herror
  · cases herror
  · next hstart =>
    refine ⟨Diagnostic.expectedBecause d .name (.expected d .letter), ?_, rfl⟩
    rw [outcome_name, Cursor.ahead?, List.drop_zero, S.head?_any_eq hrel (by decide),
      if_neg hstart]

/-- The same keyword is chosen on both sides. -/
theorem keywordChoice_simulates {words : List Text} (hwords : ∀ word ∈ words, word.IsName) :
    S.Simulates Cursor.Live E id (keywordChoice words) (keywordChoice words) where
  before c c' a hok _ := by
    rw [outcome_keywordChoice] at hok
    split at hok
    · next word hfind =>
      exact Alignment.live_of_atKeyword (hwords word (List.mem_of_find?_eq_some hfind))
        (List.find?_some hfind)
    · cases hok
  follows c d c' a hrel hok _ := by
    have hsame : words.find? d.atKeyword = words.find? c.atKeyword :=
      List.find?_congr fun w hw => Bool.eq_iff_iff.2 (S.atKeyword_iff hrel (hwords w hw))
    rw [outcome_keywordChoice] at hok
    split at hok
    · next hfind =>
      cases hok
      refine ⟨a, _, ?_, rfl, S.advance_keyword hrel
        (hwords a (List.mem_of_find?_eq_some hfind)) (List.find?_some hfind)⟩
      rw [outcome_keywordChoice, hsame, hfind]
    · cases hok

/-! ### Space -/

theorem skipSpace_simulates : S.Simulates Cursor.Live Cursor.Live id skipSpace skipSpace where
  before c c' _ hok hc := by
    rw [outcome_skipSpace] at hok
    cases hok
    exact hc.of_leads c.leads_skipSpace
  follows c d c' _ hrel hok hc := by
    rw [outcome_skipSpace] at hok
    cases hok
    exact ⟨_, _, outcome_skipSpace d, rfl, S.skipSpace hrel (hc.of_leads c.leads_skipSpace)⟩

theorem space_simulates : S.Simulates Cursor.Live Cursor.Live id space space where
  before c c' _ hok hc := by
    rw [outcome_space] at hok
    split at hok <;> cases hok
    exact hc.of_leads c.leads_skipSpace
  follows c d c' _ hrel hok hc := by
    rw [outcome_space] at hok
    split at hok
    · cases hok
    · next hne =>
      cases hok
      have hlive := hc.of_leads c.leads_skipSpace
      refine ⟨_, _, ?_, rfl, S.skipSpace hrel hlive⟩
      rw [outcome_space, if_neg (mt (S.takeWhile_isSpace_eq_nil_iff hrel hlive).1 hne)]

theorem space_passes : S.Passes Cursor.Live space space := by
  intro c d e hrel hlive herror _
  rw [outcome_space] at herror
  split at herror
  · next hnil =>
    refine ⟨Diagnostic.expected d .blank, ?_, rfl⟩
    rw [outcome_space, if_pos ((S.takeWhile_isSpace_eq_nil_iff hrel hlive).2 hnil)]
  · cases herror

theorem nextSymbol_simulates (m : Char) (hm : IsMark m) :
    S.Simulates Cursor.Live E id (nextSymbol [m]) (nextSymbol [m]) :=
  .seq skipSpace_simulates fun _ => symbol_simulates m hm

theorem nextKeyword_simulates {word : Text} (hword : word.IsName) :
    S.Simulates Cursor.Live E id (nextKeyword word) (nextKeyword word) :=
  .seq space_simulates fun _ => keyword_simulates hword

theorem nextKeyword_passes {word : Text} (hword : word.IsName) :
    S.Passes Cursor.Live (nextKeyword word) (nextKeyword word) := by
  refine space_passes.seq space_simulates (fun c c' _ hc hok => ?_) fun _ _ _ =>
    (keyword_passes hword).mono fun _ _ => trivial
  rw [outcome_space] at hok
  split at hok <;> cases hok
  exact hc.skipSpace

/-- Where a mark follows, perhaps after space, something other than space lies ahead. -/
theorem live_of_mark {c : Cursor} {m : Char} (hm : isSpace m = false)
    (h : c.skipSpace.peek = [m]) : c.Live :=
  (Cursor.live_of_head? hm (Cursor.head?_of_peek h)).of_leads c.leads_skipSpace

theorem live_of_semicolon {c : Cursor} (h : c.skipSpace.peek = ";") : c.Live :=
  live_of_mark (m := ';') (by decide) h

/-- The semicolon that is found past the space on the left is passed on the right. -/
theorem advance_semicolon {c d : Cursor} (hrel : S.Rel c d) (h : c.skipSpace.peek = ";") :
    S.Rel (c.skipSpace.advance 1) (d.skipSpace.advance 1) :=
  S.advance_mark (S.skipSpace hrel (live_of_semicolon h)) (by decide)
    (Cursor.head?_of_peek (m := ';') h)

theorem terminator_simulates : S.Simulates Cursor.Live E id terminator terminator where
  before c c' _ hok _ := by
    rw [outcome_terminator] at hok
    split at hok
    · next hpeek => exact live_of_semicolon hpeek
    · cases hok
  follows c d c' _ hrel hok _ := by
    rw [outcome_terminator] at hok
    split at hok
    · next hpeek =>
      cases hok
      refine ⟨_, _, ?_, rfl, advance_semicolon hrel hpeek⟩
      rw [outcome_terminator, if_pos ((S.semicolon hrel).1 hpeek)]
    · cases hok

/-- The end of a clause is told in the same way on both sides, even at the end of the source. -/
theorem clauseTerminator_follows {c d c' : Cursor} (hrel : S.Rel c d)
    (hok : clauseTerminator.outcome c = .ok ((), c')) :
    ∃ d', clauseTerminator.outcome d = .ok ((), d') ∧ S.Rel c' d' := by
  rw [outcome_clauseTerminator] at hok
  rw [outcome_clauseTerminator]
  split at hok
  · next hbrace =>
    rw [if_pos ((S.brace hrel).1 hbrace)]
    split at hok
    · next hpeek =>
      cases hok
      exact ⟨_, by rw [if_pos ((S.semicolon hrel).1 hpeek)], advance_semicolon hrel hpeek⟩
    · next hpeek =>
      cases hok
      exact ⟨_, by rw [if_neg (mt (S.semicolon hrel).2 hpeek)], hrel⟩
  · next hbrace =>
    rw [if_neg (mt (S.brace hrel).2 hbrace)]
    obtain ⟨_, d', hright, -, hnext⟩ :=
      (terminator_simulates (E := Cursor.Any)).follows hrel hok trivial
    exact ⟨d', hright, hnext⟩

/-- A clause may end without a semicolon, so nothing has to lie ahead of its end. -/
theorem clauseTerminator_simulates :
    S.Simulates Cursor.Any Cursor.Any id clauseTerminator clauseTerminator where
  before _ _ _ _ _ := trivial
  follows c d c' _ hrel hok _ := by
    obtain ⟨d', hright, hnext⟩ := clauseTerminator_follows hrel hok
    exact ⟨(), d', hright, rfl, hnext⟩

/-- Within a block, something lies ahead of the end of a clause if it does after it. -/
theorem clauseTerminator_simulates_inside :
    S.Simulates Cursor.Live Cursor.Live id clauseTerminator clauseTerminator where
  before c c' _ hok hc := by
    rw [outcome_clauseTerminator] at hok
    split at hok
    · split at hok
      · next hpeek => exact live_of_semicolon hpeek
      · cases hok
        exact hc
    · exact (terminator_simulates (S := S)).before hok hc
  follows c d c' _ hrel hok _ := by
    obtain ⟨d', hright, hnext⟩ := clauseTerminator_follows hrel hok
    exact ⟨(), d', hright, rfl, hnext⟩

/-! ### Lists -/

section Lists

variable {m : Char} {element element' : Parser α}

/-- Either a separator lies ahead, or nothing is read and what lies ahead still does. -/
theorem live_of_moreElements (hm : IsMark m) {c c' : Cursor} {as : List α}
    (hok : (moreElements [m] element).outcome c = .ok (as, c')) (hc : c'.Live) : c.Live := by
  rw [outcome_moreElements] at hok
  split at hok
  · next hpeek => exact live_of_mark hm.1 hpeek
  · cases hok
    exact hc

/-- The further elements of lists correspond if elements do. Something lies ahead behind each of
them, and hence before it. -/
theorem moreElements_simulates (hm : IsMark m)
    (h : S.Simulates Cursor.Live Cursor.Live view element element') :
    S.Simulates Cursor.Live Cursor.Live (List.map view) (moreElements [m] element)
      (moreElements [m] element') := by
  refine ⟨fun c c' as => live_of_moreElements hm, fun c d c' as hrel hok hc => ?_⟩
  induction hn : c.remaining using Nat.strongRecOn generalizing c d as with
  | ind n ih =>
    have hlive := live_of_moreElements hm hok hc
    have hspace := S.skipSpace hrel hlive
    rw [outcome_moreElements] at hok
    rw [outcome_moreElements]
    split at hok
    · next hpeek =>
      rw [if_pos ((S.peek_eq_iff hspace hm.1).2 hpeek)]
      obtain ⟨⟨a, c₁⟩, hfirst, hrest⟩ := bind_eq_ok.1 hok
      -- something lies ahead after the element, hence before it and after the separator too
      have hlater : c₁.Live := by
        split at hrest
        · obtain ⟨r, hmore, heq⟩ := bind_eq_ok.1 hrest
          cases heq
          exact live_of_moreElements hm hmore hc
        · cases hrest
          exact hc
      have hstart := S.skipSpace (S.advance_mark hspace hm (Cursor.head?_of_peek hpeek))
        ((h.before hfirst hlater).of_leads (Cursor.leads_skipSpace _))
      obtain ⟨b, d₁, hright, hview, hnext⟩ := h.follows hstart hfirst hlater
      have hprogress := S.progress hrel hnext
      split at hrest
      · next hlt =>
        obtain ⟨⟨as, c₂⟩, hmore, heq⟩ := bind_eq_ok.1 hrest
        cases heq
        obtain ⟨bs, d', hmore', hviews, hend⟩ := ih _ (hn ▸ hlt) _ _ _ hnext hmore rfl
        refine ⟨b :: bs, d', ?_, by simp [hview, hviews], hend⟩
        simp [hright, ok_bind, hprogress.1 hlt, hmore']
      · next hlt =>
        cases hrest
        refine ⟨[b], d₁, ?_, by simp [hview], hnext⟩
        simp [hright, ok_bind, mt hprogress.2 hlt]
    · next hpeek =>
      cases hok
      exact ⟨[], d, if_neg (mt (S.peek_eq_iff hspace hm.1).1 hpeek), rfl, hrel⟩

/-- Lists correspond if their elements do. Whether a list closes at once is told alike on both
sides. -/
theorem list_simulates {o k : Char} (ho : IsMark o) (hk : IsMark k) (hm : IsMark m)
    (h : S.Simulates Cursor.Live Cursor.Live view element element') :
    S.Simulates Cursor.Live E (List.map view) (list ⟨[o], [k], [m]⟩ element)
      (list ⟨[o], [k], [m]⟩ element') := by
  have hclose : ∀ as bs : List α, bs.map view = as.map view →
      S.Simulates Cursor.Live E (List.map view)
        (nextSymbol [k] >>= fun _ => pure as) (nextSymbol [k] >>= fun _ => pure bs) :=
    fun as bs hview => .seq (nextSymbol_simulates k hk) fun _ => .pure hview
  have helements := h.bind fun a b hfirst =>
    (moreElements_simulates hm h).bind fun as bs hrest =>
      have hview : (b :: bs).map view = (a :: as).map view := by simp [hfirst, hrest]
      (Alignment.Simulates.pure hview).bind hclose
  refine .seq (symbol_simulates o ho) fun _ => .seq skipSpace_simulates fun _ => ?_
  refine .here_bind (fun c c' as hok hc => ?_) fun c d hrel => ?_
  · by_cases hpeek : c.peek = [k]
    · exact Cursor.live_of_head? hk.1 (Cursor.head?_of_peek hpeek)
    · rw [if_neg hpeek] at hok
      exact helements.before hok hc
  · by_cases hpeek : c.peek = [k]
    · rw [if_pos hpeek, if_pos ((S.peek_eq_iff hrel hk.1).2 hpeek)]
      exact .bind (.pure rfl) hclose
    · rw [if_neg hpeek, if_neg (mt (S.peek_eq_iff hrel hk.1).1 hpeek)]
      exact helements

end Lists

/-! ### Literals -/

/-- A truth value is read alike on both sides. -/
theorem booleanForm_simulates :
    S.Simulates Cursor.Live E LiteralForm.literal? booleanForm booleanForm := by
  have hword (word : Text) (b : Bool) (h : word.IsName) :
      S.Simulates Cursor.Live E LiteralForm.literal?
        (keyword word >>= fun _ => pure (.bool b)) (keyword word >>= fun _ => pure (.bool b)) :=
    (keyword_simulates h).seq fun _ => .pure rfl
  refine .here_bind (fun c c' form hok hc => ?_) fun c d hrel => ?_
  · by_cases hat : c.atKeyword "true"
    · exact Alignment.live_of_atKeyword (by decide) hat
    · rw [if_neg hat] at hok
      exact (hword "false" false (by decide)).before hok hc
  · by_cases hat : c.atKeyword "true"
    · rw [if_pos hat, if_pos ((S.atKeyword_iff hrel (by decide)).2 hat)]
      exact hword "true" true (by decide)
    · rw [if_neg hat, if_neg (mt (S.atKeyword_iff hrel (by decide)).1 hat)]
      exact hword "false" false (by decide)

theorem booleanForm_passes : S.Passes Cursor.Any booleanForm booleanForm := by
  have hfalse : S.Passes Cursor.Any (keyword "false" >>= fun _ => pure (LiteralForm.bool false))
      (keyword "false" >>= fun _ => pure (LiteralForm.bool false)) :=
    .bind (keyword_passes (by decide)) fun _ => .pure _
  intro c d e hrel _ herror hfatal
  rw [booleanForm, outcome_bind, outcome_here, ok_bind] at herror
  rw [booleanForm, outcome_bind, outcome_here, ok_bind]
  split at herror
  · next hat =>
    rw [outcome_bind, outcome_keyword, if_pos hat] at herror
    cases herror
  · next hat =>
    rw [if_neg (mt (S.atKeyword_iff hrel (by decide)).1 hat)]
    exact hfalse hrel trivial herror hfatal

/-- The places that an integer remembers matter for its diagnostics only. -/
theorem literal?_integer (a b a' b' : Cursor) (digits suffix : Text) :
    (LiteralForm.integer a' digits b' suffix).literal? =
      (LiteralForm.integer a digits b suffix).literal? := by
  simp only [LiteralForm.literal?, LiteralForm.check]
  cases Width.ofName? suffix with
  | none => rfl
  | some width =>
    cases LiteralForm.number? digits with
    | none => rfl
    | some n =>
      dsimp only
      split <;> rfl

/-- An integer is read alike on both sides, apart from the places of its digits and its suffix. -/
theorem integerForm_simulates {k : CharClass} (hk : Solid k.contains) :
    S.Simulates Cursor.Live E LiteralForm.literal? (integerForm k) (integerForm k) :=
  .bind .here fun a a' _ => .seq (run1_simulates hk) fun digits =>
    .seq (symbol_simulates '~' (by decide)) fun _ =>
      .bind .here fun b b' _ => .seq (run1_simulates (by decide)) fun suffix =>
        .pure (literal?_integer a b a' b' digits suffix)

theorem integerForm_passes {k : CharClass} (hk : Solid k.contains) :
    S.Passes Cursor.Any (integerForm k) (integerForm k) := by
  have hany {α : Type} {p : Parser α} ⦃c c' : Cursor⦄ ⦃a : α⦄ (_ : c.Any)
      (_ : p.outcome c = .ok (a, c')) : c'.Any := trivial
  refine .seq (.of_sure fun _ _ h => nomatch h) .here hany fun _ _ _ =>
    .seq (run1_passes hk) (run1_simulates hk) hany fun _ _ _ =>
      .seq (symbol_passes '~' (by decide)) (symbol_simulates '~' (by decide)) hany
        fun _ _ _ => .seq (.of_sure fun _ _ h => nomatch h) .here hany fun _ _ _ => ?_
  exact (run1_passes (by decide)).bind fun _ => .pure _

/-- What a colour stands for does not depend on where it stands. -/
theorem literal?_colour (a a' : Cursor) (digits : Text) :
    (LiteralForm.colour a' digits).literal? = (LiteralForm.colour a digits).literal? := by
  simp only [LiteralForm.literal?, LiteralForm.check]
  split <;> rfl

theorem colourForm_simulates :
    S.Simulates Cursor.Live E LiteralForm.literal? colourForm colourForm :=
  .bind .here fun a a' _ => .seq (symbol_simulates '#' (by decide)) fun _ =>
    .seq (run1_simulates (by decide)) fun digits => .pure (literal?_colour a a' digits)

/-- A string is the text between two double quotes, and holds none. -/
theorem stringForm_eq_ok {c c' : Cursor} {form : LiteralForm}
    (h : stringForm.outcome c = .ok (form, c')) : ∃ t r, form = .string t ∧ '"' ∉ t ∧
      c.rest = '"' :: (t ++ '"' :: r) ∧ c' = c.advance (t.length + 2) := by
  rw [stringForm, outcome_bind] at h
  obtain ⟨⟨_, c₁⟩, hopen, h⟩ := bind_eq_ok.1 h
  rw [outcome_bind] at h
  obtain ⟨⟨t, c₂⟩, htext, h⟩ := bind_eq_ok.1 h
  rw [outcome_bind] at h
  obtain ⟨⟨_, c₃⟩, hclose, h⟩ := bind_eq_ok.1 h
  cases h
  obtain ⟨hpeek, rfl⟩ := symbol_eq_ok hopen
  obtain ⟨hquote, ⟨r, hr⟩, rfl⟩ := takeUntil_eq_ok '"' htext
  obtain ⟨-, rfl⟩ := symbol_eq_ok hclose
  obtain ⟨s, hs⟩ := List.head?_eq_some_iff.1 (Cursor.head?_of_peek (m := '"') hpeek)
  rw [Cursor.rest_advance, hs, List.drop_succ_cons, List.drop_zero] at hr
  refine ⟨t, r, rfl, hquote, by rw [hs, hr], ?_⟩
  rw [Cursor.advance_advance, Cursor.advance_advance, Nat.add_comm 1, Nat.add_assoc]

/-- A quotation is read alike on both sides. -/
theorem stringForm_simulates :
    S.Simulates Cursor.Live E LiteralForm.literal? stringForm stringForm where
  before c c' form hok _ := by
    obtain ⟨t, r, -, -, hrest, -⟩ := stringForm_eq_ok hok
    exact Cursor.live_of_head? (m := '"') (by decide) (by rw [hrest]; rfl)
  follows c d c' form hrel hok _ := by
    obtain ⟨t, r, rfl, hquote, hrest, rfl⟩ := stringForm_eq_ok hok
    obtain ⟨⟨s, hs⟩, hnext⟩ := S.quotation hrel hrest hquote
    have hd : d.inSource := Cursor.inSource_of_rest_ne_nil (by simp [hs])
    have hright : d.rest = '"' :: (t ++ ['"']) ++ s := by simp [hs]
    obtain ⟨form, hread, rfl⟩ := stringForm_reads hquote hd hright
    refine ⟨_, _, hread, rfl, ?_⟩
    rwa [show ('"' :: (t ++ ['"'])).length = t.length + 2 by simp]

/-- Where a colour is read, no quotation starts. An unclosed quotation on the left need not be one
on the right, but then nothing else is read there. -/
theorem stringForm_passes : S.Passes
    (fun c => c.Live ∧ ∃ fs r, (choice fs [colourForm]).outcome c = .ok r)
    stringForm stringForm := by
  rintro c d e hrel ⟨-, fs, r, hok⟩ - -
  have hhash : c.peek = ['#'] := by
    rw [outcome_choice_cons] at hok
    split at hok
    · next r' hcolour =>
      rw [colourForm, outcome_bind, outcome_here, ok_bind, outcome_bind, outcome_symbol] at hcolour
      split at hcolour
      · assumption
      · cases hcolour
    · cases hok
    · split at hok <;> cases hok
  have hquote : d.peek ≠ "\"" := by
    rw [(S.peek_eq_iff hrel (by decide)).2 hhash]
    decide
  refine ⟨Diagnostic.expected d (.symbol "\""), ?_, rfl⟩
  rw [stringForm, outcome_bind, outcome_symbol, if_neg hquote]
  rfl

/-- A literal has the same form on both sides. That no quotation starts is carried over only where a
colour is read instead. -/
theorem literalForm_simulates :
    S.Simulates Cursor.Live E LiteralForm.literal? literalForm literalForm := by
  have hforms : S.Simulates Cursor.Live E LiteralForm.literal? (alt literalForms)
      (alt literalForms) := by
    refine .choice_cons booleanForm_simulates (booleanForm_passes.mono fun _ _ => trivial)
      fun _ _ => ?_
    refine .choice_cons (integerForm_simulates (by decide))
      ((integerForm_passes (by decide)).mono fun _ _ => trivial) fun _ _ => ?_
    refine .choice_cons (integerForm_simulates (by decide))
      ((integerForm_passes (by decide)).mono fun _ _ => trivial) fun _ _ => ?_
    -- the failure of a quotation is carried over only because a colour is read instead
    refine .choice_cons stringForm_simulates stringForm_passes fun _ _ => ?_
    refine .choice_cons colourForm_simulates ?_ fun _ _ => .fail _ _
    rintro c d e - ⟨-, fs, r, hok⟩
    cases hok
  exact hforms.relabel (fun _ _ => mapError_eq_ok) fun _ _ => mapError_eq_ok

theorem literal_simulates : S.Simulates Cursor.Live E id literal literal := by
  refine literalForm_simulates.bind fun form form' hview => .ofExcept fun l hl => ⟨l, ?_, rfl⟩
  rw [mapError_eq_ok] at hl ⊢
  rw [LiteralForm.literal?, LiteralForm.literal?, hl] at hview
  cases hform : form'.check with
  | error e => simp [hform, Except.toOption] at hview
  | ok l' => simpa [hform, Except.toOption] using hview

/-- A name is a constant on both sides, or it is read as a literal on both. -/
theorem literalOrConstant_simulates (constants : Table Text Literal) :
    S.Simulates Cursor.Live E id (literalOrConstant constants) (literalOrConstant constants) where
  before c c' l hok hc := by
    rw [outcome_literalOrConstant] at hok
    split at hok
    · exact (literal_simulates (S := S)).before hok hc
    · next r hname => exact (name_simulates (S := S) (E := Cursor.Any)).before hname trivial
  follows c d c' l hrel hok hc := by
    rw [outcome_literalOrConstant] at hok
    cases hname : name.outcome c with
    | error e =>
      obtain ⟨e', hright, -⟩ := name_passes hrel trivial hname (isFatal_of_name hname)
      rw [hname] at hok
      obtain ⟨l', d', hliteral, hl, hnext⟩ := literal_simulates.follows hrel hok hc
      exact ⟨l', d', by rw [outcome_literalOrConstant, hright]; exact hliteral, hl, hnext⟩
    | ok r =>
      obtain ⟨word, d', hright, hword, hnext⟩ :=
        (name_simulates (E := Cursor.Any)).follows hrel hname trivial
      obtain rfl : word = r.1 := hword
      rw [hname] at hok
      cases hget : constants.get? r.1 with
      | some l' =>
        simp only [hget, Except.ok.injEq, Prod.mk.injEq] at hok
        obtain ⟨rfl, rfl⟩ := hok
        exact ⟨l', d', by rw [outcome_literalOrConstant, hright]; simp [hget], rfl, hnext⟩
      | none =>
        simp only [hget] at hok
        obtain ⟨l', d', hliteral, hl, hnext⟩ := literal_simulates.follows hrel hok hc
        refine ⟨l', d', ?_, hl, hnext⟩
        rw [outcome_literalOrConstant, hright]
        simpa [hget] using hliteral

end Parser

end EventRules
