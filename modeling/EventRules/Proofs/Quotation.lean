/-
# Quotations and comments

Comments are blanked out before a program is read, and the scan for comments takes a quotation to
end with its line. The reader of literals does not: its quotations go on to the next double quote,
whatever stands between. So the two agree on a quotation as long as no comment starts inside of it,
and a quotation on one line always comes out as it was written.
-/

import EventRules.Proofs.AlignedToken
import EventRules.Proofs.Comments
import EventRules.Proofs.Run
import Mathlib.Algebra.Group.Nat.Even

namespace EventRules

/-! ### Where comments are -/

namespace Comment

/-- The number of double quotes on a line so far, after one more character. -/
def tally (n : Nat) (c : Char) : Nat :=
  if c = '\n' then 0 else if c = '"' then n + 1 else n

/-- The number of double quotes on the last line of a text, if `n` of them stand before the text on
its first line. -/
def quotesOnLine (n : Nat) (t : Text) : Nat :=
  t.foldl tally n

/-- Two slashes stand at the offset, after an even number of double quotes on their line. -/
def StartsFrom (n : Nat) (t : Text) (i : Nat) : Prop :=
  "//" <+: t.drop i ∧ Even (quotesOnLine n (t.take i))

/-- A comment starts at or before the offset and goes on beyond it. -/
def CoversFrom (n : Nat) (t : Text) (j : Nat) : Prop :=
  ∃ i ≤ j, StartsFrom n t i ∧ '\n' ∉ (t.drop i).take (j + 1 - i)

/-- A comment starts at the offset. -/
abbrev StartsAt (t : Text) (i : Nat) : Prop :=
  StartsFrom 0 t i

/-- The place in a line fits the number of double quotes before it. -/
def Place.Agrees : Place → Nat → Prop
  | code, n => Even n
  | quotation, n => ¬ Even n
  | comment, _ => True

variable {n i j : Nat} {c : Char} {t : Text} {place : Place}

theorem StartsFrom.getElem? (h : StartsFrom n t i) : t[i]? = some '/' := by
  obtain ⟨⟨r, hr⟩, -⟩ := h
  rw [← Nat.add_zero i, ← List.getElem?_drop, ← hr]
  rfl

/-- A comment covers its first character. -/
theorem StartsFrom.covers (h : StartsFrom n t i) : CoversFrom n t i := by
  refine ⟨i, Nat.le_refl i, h, ?_⟩
  obtain ⟨⟨r, hr⟩, -⟩ := h
  rw [Nat.add_sub_cancel_left, ← hr]
  exact (by decide : '\n' ∉ ['/'])

theorem coversFrom_cons_zero : CoversFrom n (c :: t) 0 ↔ StartsFrom n (c :: t) 0 := by
  refine ⟨?_, StartsFrom.covers⟩
  rintro ⟨i, hi, hstart, -⟩
  rwa [Nat.le_zero.1 hi] at hstart

/-- A character is covered by a comment that starts at the first one, or by a later comment. -/
theorem coversFrom_cons_succ : CoversFrom n (c :: t) (j + 1) ↔
    (StartsFrom n (c :: t) 0 ∧ '\n' ∉ t.take (j + 1)) ∨ CoversFrom (tally n c) t j := by
  constructor
  · rintro ⟨i, hi, hstart, hline⟩
    cases i with
    | zero => exact .inl ⟨hstart, fun h => hline (List.mem_cons_of_mem c h)⟩
    | succ i => exact .inr ⟨i, Nat.le_of_succ_le_succ hi, hstart, by simpa using hline⟩
  · rintro (⟨hstart, hline⟩ | ⟨i, hi, hstart, hline⟩)
    · obtain rfl : c = '/' := Option.some.inj hstart.getElem?
      exact ⟨0, Nat.zero_le _, hstart, by simpa using hline⟩
    · exact ⟨i + 1, Nat.succ_le_succ hi, hstart, by simpa using hline⟩

/-- The character at the offset is blanked out, in a text whose first character stands at a given
place: the comment at the place goes on beyond it, or one that starts in the text covers it. -/
def Blanked (place : Place) (n : Nat) (t : Text) (j : Nat) : Prop :=
  place = .comment ∧ '\n' ∉ t.take (j + 1) ∨ CoversFrom n t j

/-- Outside a comment, what is blanked is what comments cover. -/
theorem blanked_iff_of_ne (h : place ≠ .comment) : Blanked place n t j ↔ CoversFrom n t j := by
  simp [Blanked, h]

/-- The text `u` is `t` with those characters blanked out that comments cover. -/
structure Renders (u : Text) (place : Place) (n : Nat) (t : Text) : Prop where
  blanked {j : Nat} : Blanked place n t j → u[j]? = t[j]?.map fun _ => ' '
  kept {j : Nat} : ¬ Blanked place n t j → u[j]? = t[j]?

namespace Renders

variable {u : Text} {next : Place}

/-- A character that neither lies in a comment nor starts one is kept. -/
theorem keep (h : Renders u next (tally n c) t) (hplace : place = .comment → c = '\n')
    (hstart : ¬ StartsFrom n (c :: t) 0) (hnext : next ≠ .comment) :
    Renders (c :: u) place n (c :: t) := by
  have hcomment : ∀ k, (place = .comment ∧ '\n' ∉ (c :: t).take (k + 1)) ↔ False := by
    refine fun k => iff_of_false ?_ id
    rintro ⟨hcomment, hline⟩
    exact hline (by simp [hplace hcomment])
  have hzero : ¬ Blanked place n (c :: t) 0 := by
    rwa [Blanked, hcomment, coversFrom_cons_zero, false_or]
  have hsucc : ∀ j, Blanked place n (c :: t) (j + 1) ↔ Blanked next (tally n c) t j := by
    intro j
    rw [blanked_iff_of_ne hnext, Blanked, hcomment, coversFrom_cons_succ, false_or]
    simp [hstart]
  constructor
  · intro j hj
    cases j with
    | zero => exact absurd hj hzero
    | succ j => exact h.blanked ((hsucc j).1 hj)
  · intro j hj
    cases j with
    | zero => rfl
    | succ j => exact h.kept (mt (hsucc j).2 hj)

/-- A character in a comment is blanked out, and so is one that starts a comment. -/
theorem blank (h : Renders u .comment (tally n c) t) (hc : c ≠ '\n')
    (hplace : place ≠ .comment → StartsFrom n (c :: t) 0) :
    Renders (' ' :: u) place n (c :: t) := by
  have hzero : Blanked place n (c :: t) 0 := by
    by_cases hcomment : place = .comment
    · exact .inl ⟨hcomment, by simpa using Ne.symm hc⟩
    · exact .inr (coversFrom_cons_zero.2 (hplace hcomment))
  have hsucc : ∀ j, Blanked place n (c :: t) (j + 1) ↔ Blanked .comment (tally n c) t j := by
    intro j
    rw [Blanked, Blanked, coversFrom_cons_succ, List.take_succ_cons, List.mem_cons]
    by_cases hcomment : place = .comment
    · simp only [hcomment, true_and, Ne.symm hc, false_or]
      tauto
    · simp [hcomment, hplace hcomment]
  constructor
  · intro j hj
    cases j with
    | zero => rfl
    | succ j => exact h.blanked ((hsucc j).1 hj)
  · intro j hj
    cases j with
    | zero => exact absurd hzero hj
    | succ j => exact h.kept (mt (hsucc j).2 hj)

end Renders

/-- Blanking renders a text from any place on, along the scan. -/
theorem blankFrom_renders (h : place.Agrees n) : Renders (blankFrom place t) place n t := by
  -- along the scan, which keeps the place in agreement with the number of double quotes
  fun_induction blankFrom place t generalizing n with
  | case1 => exact ⟨fun _ => rfl, fun _ => rfl⟩
  | case2 place t ih =>
    refine (ih (n := 0) Even.zero).keep (fun _ => rfl) (fun hstart => ?_) (by decide)
    obtain ⟨r, hr⟩ := hstart.1
    cases hr
  | case3 c t hc ih => exact (ih (n := tally n c) trivial).blank hc fun hne => absurd rfl hne
  | case4 c t hc ih =>
    refine (ih (n := tally n c) ?_).keep (by rintro ⟨⟩) (fun hstart => h hstart.2)
      (by split <;> decide)
    by_cases hquote : c = '"'
    · simpa [tally, hquote, Place.Agrees, Nat.even_add_one] using h
    · simpa [tally, show c ≠ '\n' from hc, hquote, Place.Agrees] using h
  | case5 t ih =>
    have hstart : StartsFrom n ('/' :: '/' :: t) 0 := ⟨⟨t, rfl⟩, h⟩
    have hrest : Renders (' ' :: blankFrom .comment t) .comment n ('/' :: t) :=
      (ih (n := n) trivial).blank (by decide) fun hne => absurd rfl hne
    exact hrest.blank (by decide) fun _ => hstart
  | case6 c t hc hslash ih =>
    refine (ih (n := tally n c) ?_).keep (by rintro ⟨⟩) (fun hstart => ?_) (by split <;> decide)
    · by_cases hquote : c = '"'
      · simpa [tally, hquote, Place.Agrees, Nat.even_add_one] using h
      · simpa [tally, show c ≠ '\n' from hc, hquote, Place.Agrees] using h
    · obtain ⟨r, hr⟩ := hstart.1
      cases hr
      exact hslash r rfl rfl

theorem blank_renders (t : Text) : Renders (Comment.blank t) .code 0 t :=
  blankFrom_renders Even.zero

/-- What a comment covers is blank. -/
theorem getElem?_blank_of_covers (h : CoversFrom 0 t j) :
    (Comment.blank t)[j]? = t[j]?.map fun _ => ' ' :=
  (blank_renders t).blanked (.inr h)

/-- What no comment covers stays as it is. -/
theorem getElem?_blank_of_not_covers (h : ¬ CoversFrom 0 t j) : (Comment.blank t)[j]? = t[j]? :=
  (blank_renders t).kept ((blanked_iff_of_ne (by decide)).not.2 h)

/-- What is not space after the comments are blanked out stood there before. -/
theorem not_covers_of_getElem?_blank (h : (Comment.blank t)[j]? = some c) (hc : c ≠ ' ') :
    ¬ CoversFrom 0 t j ∧ t[j]? = some c := by
  by_cases hcovers : CoversFrom 0 t j
  · rw [getElem?_blank_of_covers hcovers, Option.map_eq_some_iff] at h
    obtain ⟨-, -, hspace⟩ := h
    exact absurd hspace.symm hc
  · exact ⟨hcovers, getElem?_blank_of_not_covers hcovers ▸ h⟩

/-- A comment covers everything between its start and a place that it covers. -/
theorem coversFrom_of_le {k : Nat} (hstart : StartsFrom n t i)
    (hline : '\n' ∉ (t.drop i).take (j + 1 - i)) (hi : i ≤ k) (hk : k ≤ j) : CoversFrom n t k := by
  refine ⟨i, hi, hstart, fun hmem => hline ?_⟩
  exact (List.take_subset_take_left _ (by omega)) hmem

/-- A comment covers no line feed. -/
theorem CoversFrom.getElem?_ne (h : CoversFrom n t j) : t[j]? ≠ some '\n' := by
  obtain ⟨i, hi, -, hline⟩ := h
  intro hfeed
  refine hline (List.mem_of_getElem? (i := j - i) ?_)
  rw [List.getElem?_take_of_lt (by omega), List.getElem?_drop, Nat.add_sub_cancel' hi, hfeed]

/-! ### Quotations -/

section Quotation

variable {s r : Text} {o : Nat} (hdrop : (Comment.blank s).drop o = '"' :: (t ++ '"' :: r))
include hdrop

/-- The text of a quotation and its closing quote stay as they are. -/
theorem getElem?_quotation {k : Nat} (hk : k ≤ t.length) :
    (Comment.blank s)[o + (k + 1)]? = (t ++ ['"'])[k]? := by
  rw [← List.getElem?_drop, hdrop, List.getElem?_cons_succ, List.append_cons,
    List.getElem?_append_left (by simp; omega)]

/-- Both quotes of a quotation stood there before. -/
theorem not_covers_quotes : (¬ CoversFrom 0 s o ∧ s[o]? = some '"') ∧
    ¬ CoversFrom 0 s (o + (t.length + 1)) ∧ s[o + (t.length + 1)]? = some '"' := by
  constructor
  · refine not_covers_of_getElem?_blank ?_ (by decide)
    rw [← Nat.add_zero o, ← List.getElem?_drop, hdrop]
    rfl
  · refine not_covers_of_getElem?_blank ?_ (by decide)
    rw [getElem?_quotation hdrop (Nat.le_refl _)]
    simp

/-- A quotation comes out as it was written if no comment starts inside of it. -/
theorem before?_of_not_startsAt (hquote : '"' ∉ t)
    (h : ∀ j, o < j → j < o + (t.length + 2) → ¬ StartsAt s j) :
    Text.before? "\"" (s.drop (o + 1)) = some t := by
  change Text.before? ['"'] _ = _
  refine Text.before?_eq_some_iff.2 ⟨hquote, List.prefix_iff_getElem?.2 ?_⟩
  intro k hk
  have hle : k ≤ t.length := by
    rw [List.length_append, List.length_singleton] at hk
    omega
  -- a comment from before the quotation would cover its opening quote
  have hkept : ¬ CoversFrom 0 s (o + (k + 1)) := by
    rintro ⟨i, hi, hstart, hline⟩
    by_cases hbefore : i ≤ o
    · exact (not_covers_quotes hdrop).1.1 (coversFrom_of_le hstart hline hbefore (by omega))
    · exact h i (by omega) (by omega) hstart
  rw [List.getElem?_drop, Nat.add_assoc, Nat.add_comm 1, ← getElem?_blank_of_not_covers hkept,
    getElem?_quotation hdrop hle, List.getElem?_eq_getElem hk]

/-- A comment that starts inside of a quotation changes it. -/
theorem not_startsAt_of_before? (h : Text.before? "\"" (s.drop (o + 1)) = some t)
    (hj : o < j) (hj' : j < o + (t.length + 2)) : ¬ StartsAt s j := by
  intro hstart
  obtain ⟨k, rfl⟩ : ∃ k, j = o + (k + 1) := ⟨j - o - 1, by omega⟩
  have hblank := getElem?_blank_of_covers hstart.covers
  change Text.before? ['"'] _ = _ at h
  obtain ⟨-, hstarts⟩ := Text.before?_eq_some_iff.1 h
  have hk : k < (t ++ ['"']).length := by
    rw [List.length_append, List.length_singleton]
    omega
  have hsame : s[o + (k + 1)]? = (t ++ ['"'])[k]? := by
    rw [List.getElem?_eq_getElem hk, ← List.prefix_iff_getElem?.1 hstarts k hk, List.getElem?_drop,
      Nat.add_assoc, Nat.add_comm 1]
  rw [getElem?_quotation hdrop (by omega), ← hsame, hstart.getElem?] at hblank
  exact absurd hblank (by decide)

/-- On one line, no comment starts inside of a quotation: it would cover the closing quote. -/
theorem not_startsAt_of_line (hline : '\n' ∉ t) (hj : o < j) (hj' : j < o + (t.length + 2)) :
    ¬ StartsAt s j := by
  intro hstart
  refine (not_covers_quotes hdrop).2.1 ⟨j, by omega, hstart, fun hfeed => ?_⟩
  obtain ⟨k, hk⟩ := List.mem_iff_getElem?.1 hfeed
  rw [List.getElem?_take] at hk
  split at hk
  · next hlt =>
    obtain ⟨i, hi⟩ : ∃ i, j + k = o + (i + 1) := ⟨j + k - o - 1, by omega⟩
    rw [List.getElem?_drop, hi] at hk
    have hkept : ¬ CoversFrom 0 s (o + (i + 1)) := fun hcovers => hcovers.getElem?_ne hk
    rw [← getElem?_blank_of_not_covers hkept, getElem?_quotation hdrop (by omega)] at hk
    rcases List.mem_append.1 (List.mem_of_getElem? hk) with hmem | hmem
    · exact hline hmem
    · exact absurd hmem (by decide)
  · cases hk

end Quotation

end Comment

/-! ### String literals -/

/-- Of the forms of a literal, only a quotation makes a string. -/
theorem LiteralForm.eq_string_of_check {form : LiteralForm} {t : Text}
    (h : form.check = .ok (.string t)) : form = .string t := by
  cases form with
  | bool b => cases h
  | string u =>
    cases h
    rfl
  | integer digitsAt digits suffixAt suffix =>
    rw [check] at h
    split at h
    · cases h
    · split at h
      · cases h
      · split at h <;> cases h
  | colour start digits =>
    rw [check] at h
    split at h <;> cases h

namespace Parser

/-- A string literal is a quotation. -/
theorem literal_eq_ok_string {c c' : Cursor} {t : Text}
    (h : literal.outcome c = .ok (.string t, c')) :
    '"' ∉ t ∧ (∃ r, c.rest = '"' :: (t ++ '"' :: r)) ∧ c' = c.advance (t.length + 2) := by
  rw [literal, outcome_bind] at h
  obtain ⟨⟨form, d⟩, hform, hcheck⟩ := bind_eq_ok.1 h
  obtain ⟨l, hl, heq⟩ := map_eq_ok.1 hcheck
  cases heq
  obtain rfl := LiteralForm.eq_string_of_check (mapError_eq_ok.1 hl)
  rw [outcome_literalForm, mapError_eq_ok] at hform
  obtain ⟨p, hp, hread⟩ := exists_of_choice_eq_ok hform
  have hother : ∀ q : Parser LiteralForm, q.Yields (∀ u, · ≠ LiteralForm.string u) → p ≠ q := by
    rintro q hq rfl
    exact (hq hread).2 t rfl
  have hinteger : ∀ k, (integerForm k).Yields (∀ u, · ≠ LiteralForm.string u) := fun k =>
    .bind .here fun _ _ => .bind (Parser.run1_yields k) fun _ _ =>
      .bind (Parser.symbol_yields _) fun _ _ => .bind .here fun _ _ =>
        .bind (Parser.run1_yields _) fun _ _ => .pure nofun
  have hboolean : booleanForm.Yields (∀ u, · ≠ LiteralForm.string u) := by
    refine .bind .here fun d _ => ?_
    split <;> exact .bind (Parser.keyword_yields _) fun _ _ => .pure nofun
  have hcolour : colourForm.Yields (∀ u, · ≠ LiteralForm.string u) :=
    .bind .here fun _ _ => .bind (Parser.symbol_yields _) fun _ _ =>
      .bind (Parser.run1_yields _) fun _ _ => .pure nofun
  simp only [literalForms, List.mem_cons, List.not_mem_nil, or_false, hother _ (hinteger _),
    hother _ hboolean, hother _ hcolour, false_or] at hp
  subst hp
  obtain ⟨u, r, heq, hquote, hrest, rfl⟩ := stringForm_eq_ok hread
  cases heq
  exact ⟨hquote, ⟨r, hrest⟩, rfl⟩

end Parser

namespace Options

/-- A string literal is read from a source without its comments as it stands in the program text
exactly if no comment starts inside of it, and always if it stands on one line. -/
theorem string_verbatim_iff (name s : Text) (c c' : Cursor) (t : Text)
    (hsource : c.source = bare ⟨name, s⟩) (h : Parser.literal.outcome c = .ok (.string t, c')) :
    s[c.offset]? = some '"' ∧
      (Text.before? "\"" (s.drop (c.offset + 1)) = some t ↔
        ∀ j, c.offset < j → j < c'.offset → ¬ Comment.StartsAt s j) ∧
      ('\n' ∉ t → Text.before? "\"" (s.drop (c.offset + 1)) = some t) := by
  obtain ⟨hquote, ⟨r, hrest⟩, rfl⟩ := Parser.literal_eq_ok_string h
  have hdrop : (Comment.blank s).drop c.offset = '"' :: (t ++ '"' :: r) := by
    rw [← hrest, c.rest_eq, hsource]
    rfl
  have hend : (c.advance (t.length + 2)).offset = c.offset + (t.length + 2) := by
    have hlength := c.length_rest
    rw [hrest, List.length_cons, List.length_append, List.length_cons] at hlength
    rw [Cursor.offset_advance]
    omega
  rw [hend]
  have hverbatim := Comment.before?_of_not_startsAt hdrop hquote
  exact ⟨(Comment.not_covers_quotes hdrop).1.2,
    ⟨fun hsame _ => Comment.not_startsAt_of_before? hdrop hsame, hverbatim⟩,
    fun hline => hverbatim fun _ => Comment.not_startsAt_of_line hdrop hline⟩

/-- Slashes in a quotation on one line, and a quote in the comment after it. -/
theorem string_verbatim_slashes :
    let s : Text := "const url = \"a//b\"; // \""
    let c := (bare ⟨"", s⟩).cursor 12
    Parser.literal.outcome c = .ok (.string "a//b", c.advance 6) ∧
      Text.before? "\"" (s.drop 13) = some "a//b" := by
  intro s c
  have h : Parser.literal.outcome c = .ok (.string "a//b", c.advance 6) := by rfl
  exact ⟨h, (string_verbatim_iff "" s c _ _ rfl h).2.2 (by decide)⟩

/-- A comment that starts on the second line of a string constant is blanked out in it. -/
theorem string_constant_blanked :
    let o : Options := { eventCodes := false }
    let s : Text := "const x = \"a\n//b\n\";"
    let c := (o.source "" s).cursor 10
    (∃ p, (o.compileText "" s).outcome = .ok p ∧
        p.constants.get? "x" = some (.string "a\n   \n")) ∧
      Parser.literal.outcome c = .ok (.string "a\n   \n", c.advance 8) ∧
      Text.before? "\"" (s.drop 11) = some "a\n//b\n" := by
  intro o s c
  exact ⟨exists_of_toOption_map (by decide +kernel), rfl, rfl⟩

end Options

end EventRules
