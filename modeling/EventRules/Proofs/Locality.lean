/-
# What a token depends on

Whether a token is read somewhere depends on the text that it takes and on one character more: the
next one must not be of a class with which the token would go on. That class holds only space, or
the token ends like a word. So the token is read wherever its text stands and the class does not go
on, in this source or in another one.
-/

import EventRules.Proofs.Composition
import EventRules.Proofs.LiteralSpelling

namespace EventRules

namespace Cursor

variable {c d : Cursor} {t u : Text}

/-- A text that is crossed is crossed in two parts. -/
theorem Crosses.split (h : c.Crosses (t ++ u) d) :
    c.Crosses t (c.advance t.length) ∧ (c.advance t.length).Crosses u d := by
  obtain ⟨hc, ⟨r, hr⟩, rfl⟩ := h
  refine ⟨⟨hc, ⟨u ++ r, by rw [← hr, List.append_assoc]⟩, rfl⟩, c.inSource_advance _, ⟨r, ?_⟩, ?_⟩
  · rw [rest_advance, ← hr, List.append_assoc, List.drop_left]
  · rw [advance_advance, List.length_append]

theorem crosses_skipSpace (hc : c.inSource) :
    c.Crosses (c.rest.takeWhile isSpace) c.skipSpace :=
  ⟨hc, List.takeWhile_prefix _, rfl⟩

theorem stops_skipSpace (c : Cursor) : c.skipSpace.rest.Stops isSpace := by
  rw [rest_skipSpace]
  exact Text.stops_dropWhile _ _

/-- Where a run of space stands and does not go on, it is the space that is skipped. -/
theorem Crosses.skipSpace_eq (h : c.Crosses (t.takeWhile isSpace) d) (hd : d.rest.Stops isSpace) :
    c.rest.takeWhile isSpace = t.takeWhile isSpace ∧ c.skipSpace = d := by
  have hspace : ∀ ch ∈ t.takeWhile isSpace, isSpace ch := fun ch hch => List.mem_takeWhile_imp hch
  refine ⟨?_, Blanks.skipSpace_eq ⟨_, hspace, h⟩ hd⟩
  rw [h.rest_eq, Text.takeWhile_append_of_stops hspace hd]

end Cursor

theorem isWordChar_of_isNameChar {ch : Char} (h : isNameChar ch = true) :
    isWordChar ch = true := by
  rw [isWordChar, h, Bool.true_or]

theorem not_isWordChar_of_isSpace {ch : Char} (h : isSpace ch = true) :
    isWordChar ch = false := by
  simp only [isSpace, Bool.or_eq_true, decide_eq_true_eq] at h
  rcases h with ((rfl | rfl) | rfl) | rfl <;> decide

/-- The text ends like a word. -/
def Text.EndsWord (t : Text) : Prop :=
  ∃ ch, t.getLast? = some ch ∧ isWordChar ch = true

theorem Text.endsWord_of_forall {t : Text} (hne : t ≠ []) (h : ∀ ch ∈ t, isNameChar ch = true) :
    t.EndsWord :=
  ⟨t.getLast hne, List.getLast?_eq_some_getLast hne,
    isWordChar_of_isNameChar (h _ (List.getLast_mem hne))⟩

theorem Text.EndsWord.append {t u : Text} (h : u.EndsWord) : Text.EndsWord (t ++ u) := by
  obtain ⟨ch, hch, hword⟩ := h
  exact ⟨ch, by rw [List.getLast?_append, hch, Option.some_or], hword⟩

theorem Text.IsName.endsWord {t : Text} (h : t.IsName) : t.EndsWord :=
  endsWord_of_forall h.1.ne_nil h.2

/-- A spelling goes on with nothing, or it ends like a word. -/
theorem Literal.Spelling.endsWord {l : Literal} {u : Text} (h : l.Spelling u) :
    (∀ ch, l.goesOn ch = false) ∨ u.EndsWord := by
  cases h with
  | bool b =>
    have hbool : (Text.ofBool b).IsName := by cases b <;> decide
    exact .inr hbool.endsWord
  | int hdigits hsuffix hn =>
    obtain ⟨hne, hsuffix⟩ := Width.letters_of_ofName? hsuffix
    have hword := Text.endsWord_of_forall hne fun ch hch =>
      isNameChar_of_contains (.inr rfl) (hsuffix ch hch)
    exact .inr ((hword.append (t := ['~'])).append)
  | string ht => exact .inl fun _ => rfl
  | @colour digits c hc =>
    obtain ⟨bytes, hbytes, hcolour⟩ := Option.bind_eq_some_iff.1 hc
    have hne : digits ≠ [] := by
      rintro rfl
      cases hbytes
      cases hcolour
    have hword := Text.endsWord_of_forall hne fun ch hch =>
      isNameChar_of_contains (.inl rfl)
        (Bool.or_eq_true_iff.2 (.inl (LiteralForm.isHexDigit_of_bytes? hbytes ch hch)))
    exact .inr (hword.append (t := ['#']))

theorem Text.EndsWord.getLast?_ne {t : Text} (h : t.EndsWord) : t.getLast? ≠ some '}' := by
  obtain ⟨ch, hch, hword⟩ := h
  rw [hch]
  rintro ⟨⟩
  exact absurd hword (by decide)

/-- A spelling ends with a double quote or like a word. -/
theorem Literal.Spelling.getLast?_eq {l : Literal} {u : Text} (h : l.Spelling u) :
    ∃ ch, u.getLast? = some ch ∧ (ch = '"' ∨ isWordChar ch = true) := by
  rcases h.endsWord with hgoesOn | ⟨ch, hch, hword⟩
  · -- only a quotation is complete whatever follows
    cases h with
    | string ht =>
      rw [List.getLast?_cons, List.getLast?_concat]
      exact ⟨'"', rfl, .inl rfl⟩
    | bool b => exact absurd (hgoesOn 'a') (by simp [goesOn]; decide)
    | int => exact absurd (hgoesOn 'a') (by simp [goesOn]; decide)
    | colour => exact absurd (hgoesOn 'a') (by simp [goesOn]; decide)
  · exact ⟨ch, hch, .inr hword⟩

/-- No spelling ends with a closing brace. -/
theorem Literal.Spelling.getLast?_ne {l : Literal} {u : Text} (h : l.Spelling u) :
    u.getLast? ≠ some '}' := by
  obtain ⟨ch, hch, hkind⟩ := h.getLast?_eq
  rw [hch]
  rintro ⟨⟩
  exact absurd hkind (by decide)

namespace Parser

variable {α : Type}

/-- What is read depends on the text that it takes, and on a class of characters that must not
follow. The class holds only space, or the text ends like a word. -/
def Local (p : Parser α) : Prop :=
  ∀ ⦃c : Cursor⦄ ⦃a : α⦄ ⦃c' : Cursor⦄, c.inSource → p.outcome c = .ok (a, c') →
    ∃ (t : Text) (goesOn : Char → Bool), c.Crosses t c' ∧ c'.rest.Stops goesOn ∧
      ((∀ ch, isSpace ch = false → goesOn ch = false) ∨ t.EndsWord) ∧
      ∀ ⦃d d' : Cursor⦄, d.Crosses t d' → d'.rest.Stops goesOn → p.outcome d = .ok (a, d')

/-- A keyword depends on its text only, and on no name going on behind it. -/
theorem keyword_local {word : Text} (hword : word.IsName) : (keyword word).Local := by
  intro c a c' _ hok
  obtain ⟨hcross, hstops⟩ := keyword_eq_ok_iff.1 hok
  exact ⟨word, isNameChar, hcross, hstops, .inr hword.endsWord,
    fun d d' hcross' hstops' => keyword_eq_ok_iff.2 ⟨hcross', hstops'⟩⟩

theorem name_local : name.Local := by
  intro c word c' _ hok
  obtain ⟨hword, hat⟩ := name_eq_ok_iff.1 hok
  obtain ⟨hcross, hstops⟩ := Cursor.word_iff.2 hat
  exact ⟨word, isNameChar, hcross, hstops, .inr hword.endsWord,
    fun d d' hcross' hstops' => name_eq_ok_iff.2 ⟨hword, Cursor.word_iff.1 ⟨hcross', hstops'⟩⟩⟩

theorem symbol_local (mark : Char) : (symbol [mark]).Local := by
  intro c a c' _ hok
  exact ⟨[mark], fun _ => false, symbol_eq_ok_iff.1 hok, fun _ _ => rfl, .inl fun _ _ => rfl,
    fun d d' hcross _ => symbol_eq_ok_iff.2 hcross⟩

theorem skipSpace_local : skipSpace.Local := by
  intro c a c' hc hok
  rw [outcome_skipSpace] at hok
  cases hok
  refine ⟨_, isSpace, Cursor.crosses_skipSpace hc, c.stops_skipSpace, .inl fun _ => id,
    fun d d' hcross hstops => ?_⟩
  rw [outcome_skipSpace, (hcross.skipSpace_eq hstops).2]

theorem space_local : space.Local := by
  intro c a c' hc hok
  rw [outcome_space] at hok
  split at hok
  · cases hok
  · next hne =>
    cases hok
    refine ⟨_, isSpace, Cursor.crosses_skipSpace hc, c.stops_skipSpace, .inl fun _ => id,
      fun d d' hcross hstops => ?_⟩
    obtain ⟨hspace, hskip⟩ := hcross.skipSpace_eq hstops
    rw [outcome_space, hspace, if_neg hne, hskip]

/-- A mark after space. -/
theorem mark_local {p : Parser Unit} {mark : Char}
    (h : ∀ c x d, p.outcome c = .ok (x, d) ↔ c.Mark mark d) : p.Local := by
  intro c a c' _ hok
  obtain ⟨b, ⟨s, hs, hspace⟩, hmark⟩ := (h c a c').1 hok
  refine ⟨s ++ [mark], fun _ => false, hspace.trans hmark, fun _ _ => rfl, .inl fun _ _ => rfl,
    fun d d' hcross _ => ?_⟩
  obtain ⟨hspace', hmark'⟩ := hcross.split
  exact (h d a d').2 ⟨_, ⟨s, hs, hspace'⟩, hmark'⟩

/-- What is checked and not read takes no text. -/
theorem ofExcept_local (x : Except Failure α) : (ofExcept x).Local := by
  intro c a c' hc hok
  obtain ⟨a, hx, heq⟩ := map_eq_ok.1 hok
  cases heq
  refine ⟨[], fun _ => false, Cursor.crosses_nil_iff.2 ⟨hc, rfl⟩, fun _ _ => rfl,
    .inl fun _ _ => rfl, fun d d' hcross _ => ?_⟩
  obtain ⟨-, rfl⟩ := Cursor.crosses_nil_iff.1 hcross
  rw [outcome_ofExcept, hx]
  rfl

/-- At another place with the same text, the same words are passed over. -/
theorem keywordChoice_local {words : List Text} (hwords : ∀ word ∈ words, word.IsName) :
    (keywordChoice words).Local := by
  intro c a c' _ hok
  rw [outcome_keywordChoice] at hok
  split at hok
  · next hfind =>
    cases hok
    have hat : c.atKeyword a := List.find?_some hfind
    have hword := hwords a (List.mem_of_find?_eq_some hfind)
    obtain ⟨hcross, hstops⟩ := Cursor.word_iff.2 ⟨hat, rfl⟩
    refine ⟨a, isNameChar, hcross, hstops, .inr hword.endsWord, fun d d' hcross' hstops' => ?_⟩
    obtain ⟨hat', rfl⟩ := Cursor.word_iff.1 ⟨hcross', hstops'⟩
    have hsame : ∀ w' ∈ words, d.atKeyword w' = c.atKeyword w' := by
      intro w' hw'
      rw [Bool.eq_iff_iff, Cursor.atKeyword_iff_takeWhile (hwords w' hw'),
        Cursor.atKeyword_iff_takeWhile (hwords w' hw'),
        (Cursor.atKeyword_iff_takeWhile hword).1 hat,
        (Cursor.atKeyword_iff_takeWhile hword).1 hat']
    rw [outcome_keywordChoice, List.find?_congr hsame, hfind]
  · cases hok

/-- The slot of a state variable depends on its name only. -/
theorem stateVariable_local (slots : Table Text Nat) : (stateVariable slots).Local := by
  intro c a c' hc hok
  rw [outcome_stateVariable] at hok
  split at hok
  · cases hok
  · next r hname =>
    split at hok
    · next hslot =>
      cases hok
      obtain ⟨t, goesOn, hcross, hstops, hend, hread⟩ := name_local hc hname
      refine ⟨t, goesOn, hcross, hstops, hend, fun d d' hcross' hstops' => ?_⟩
      rw [outcome_stateVariable, hread hcross' hstops']
      dsimp only
      rw [hslot]
    · cases hok

/-- An operand goes on with characters of names only, and if it goes on at all, it ends like a
word. It is read wherever its text stands and does not go on. -/
theorem exists_text_of_operand {constants : Table Text Literal} {c c' : Cursor} {l : Literal}
    (hok : (literalOrConstant constants).outcome c = .ok (l, c')) :
    ∃ (t : Text) (goesOn : Char → Bool), c.Crosses t c' ∧ c'.rest.Stops goesOn ∧
      (∀ ch, goesOn ch → isNameChar ch) ∧ ((∀ ch, goesOn ch = false) ∨ t.EndsWord) ∧
      ∀ ⦃d d' : Cursor⦄, d.Crosses t d' → d'.rest.Stops goesOn →
        (literalOrConstant constants).outcome d = .ok (l, d') := by
  rw [outcome_literalOrConstant] at hok
  cases hname : name.outcome c with
  | error e =>
    rw [hname] at hok
    obtain ⟨u, hcross, hu, hstops⟩ := literal_eq_ok_iff.1 hok
    refine ⟨u, l.goesOn, hcross, hstops, fun _ => l.isNameChar_of_goesOn, hu.endsWord,
      fun d d' hcross' hstops' => ?_⟩
    have hahead : d.ahead? 0 = c.ahead? 0 := by
      rw [Cursor.ahead?, Cursor.ahead?, List.drop_zero, List.drop_zero, hcross.rest_eq,
        hcross'.rest_eq, List.head?_append_of_ne_nil _ hu.ne_nil,
        List.head?_append_of_ne_nil _ hu.ne_nil]
    have hnone : ¬ (c.ahead? 0).any isNameStart := by
      intro hstart
      rw [outcome_name, if_pos hstart] at hname
      cases hname
    rw [outcome_literalOrConstant, outcome_name, hahead, if_neg hnone]
    exact literal_eq_ok_iff.2 ⟨u, hcross', hu, hstops'⟩
  | ok r =>
    rw [hname] at hok
    dsimp only at hok
    obtain ⟨hword, hat⟩ := name_eq_ok_iff.1 hname
    obtain ⟨hcross, hstops⟩ := Cursor.word_iff.2 hat
    have hname' : ∀ ⦃d d' : Cursor⦄, d.Crosses r.1 d' → d'.rest.Stops isNameChar →
        name.outcome d = .ok (r.1, d') := fun d d' hcross' hstops' =>
      name_eq_ok_iff.2 ⟨hword, Cursor.word_iff.1 ⟨hcross', hstops'⟩⟩
    cases hconstant : constants.get? r.1 with
    | some k =>
      rw [hconstant] at hok
      cases hok
      refine ⟨r.1, isNameChar, hcross, hstops, fun _ => id, .inr hword.endsWord,
        fun d d' hcross' hstops' => ?_⟩
      rw [outcome_literalOrConstant, hname' hcross' hstops']
      dsimp only
      rw [hconstant]
    | none =>
      -- a name that is no constant is read as a truth value only
      rw [hconstant] at hok
      obtain ⟨b, rfl, hb, rfl⟩ := eq_bool_of_literal hname hok
      refine ⟨r.1, isNameChar, hcross, hstops, fun _ => id, .inr hword.endsWord,
        fun d d' hcross' hstops' => ?_⟩
      rw [outcome_literalOrConstant, hname' hcross' hstops']
      dsimp only
      rw [hconstant]
      exact literal_eq_ok_iff.2 ⟨r.1, hcross', hb ▸ .bool b, hstops'⟩

/-- An operand depends on its text only, and on no name going on behind it. -/
theorem literalOrConstant_local (constants : Table Text Literal) :
    (literalOrConstant constants).Local := by
  intro c l c' _ hok
  obtain ⟨t, goesOn, hcross, hstops, -, hend, hread⟩ := exists_text_of_operand hok
  exact ⟨t, goesOn, hcross, hstops, hend.imp_left fun h ch _ => h ch, hread⟩

end Parser

end EventRules
