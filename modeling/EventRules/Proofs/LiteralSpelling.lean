/-
# What is read as a literal

A literal is read in two steps: by an outer form, which is described by the runs and marks that lie
between two cursors, and by a check of what stands in the form. So a literal is read exactly where
one of its spellings stands and does not go on. Then the text that is read tells the literal, and of
all literals only the truth values are spelled like names. Hence a name that is no truth value is
read as an operand only if it names a constant.
-/

import EventRules.Proofs.AlignedToken
import EventRules.Proofs.Commitment
import EventRules.Proofs.Crossing
import EventRules.Proofs.Yields

namespace EventRules

theorem not_isNameStart_of_isDigit (ch : Char) (h : ch.isDigit) : isNameStart ch = false := by
  rw [Text.isDigit_iff] at h
  have halpha : ¬ ch.isAlpha := by
    rw [Text.isAlpha_iff]
    omega
  have hunderscore : ch ≠ '_' := by
    rintro rfl
    exact absurd h (by decide)
  simp [isNameStart, halpha, hunderscore]

/-- A run of a class ends where the class stops. -/
theorem Text.stops_dropWhile (isMember : Char → Bool) (t : Text) :
    Stops isMember (t.dropWhile isMember) := by
  intro ch hch
  have hhead := List.head?_dropWhile_not isMember t
  rw [Option.mem_def.1 hch] at hhead
  exact hhead

namespace Literal.Spelling

variable {l : Literal} {u : Text}

theorem ne_nil (h : l.Spelling u) : u ≠ [] := by
  cases h with
  | bool b => cases b <;> decide
  | int | string | colour => simp

/-- Only truth values are spelled like names. -/
theorem eq_bool_of_starts (h : l.Spelling u) (hu : u.Starts isNameStart) :
    ∃ b, l = .bool b ∧ u = Text.ofBool b := by
  cases h with
  | bool b => exact ⟨b, rfl, rfl⟩
  | int hdigits =>
    have hstart := (LiteralForm.digits_of_number? hdigits).1
    obtain ⟨ch, hch, hname⟩ := (Option.any_eq_true _ _).1 hu
    rw [(hstart.append _).stops not_isNameStart_of_isDigit ch hch] at hname
    cases hname
  | string | colour => exact absurd (Text.starts_cons.1 hu) (by decide)

end Literal.Spelling

/-! ### Outer forms -/

namespace Cursor

variable {k : CharClass} {c d s : Cursor} {t digits suffix : Text}

/-- A run of characters of a class, at least one and as many as there are, lies between the
cursors. -/
structure RunAt (k : CharClass) (c : Cursor) (t : Text) (d : Cursor) : Prop where
  ne_nil : t ≠ []
  forall_mem : ∀ ch ∈ t, k.contains ch
  crosses : c.Crosses t d
  stops : d.rest.Stops k.contains

/-- A run of digits of a class, a tilde and a suffix lie between the cursors, the suffix from
`s` on. -/
def NumberAt (k : CharClass) (c : Cursor) (digits : Text) (s : Cursor) (suffix : Text)
    (d : Cursor) : Prop :=
  ∃ e, c.RunAt k digits e ∧ e.Crosses ['~'] s ∧ s.RunAt .alphanumeric suffix d

/-- A hash and a run of hexadecimal digits lie between the cursors. -/
def ColourAt (c : Cursor) (digits : Text) (d : Cursor) : Prop :=
  ∃ e, c.Crosses ['#'] e ∧ e.RunAt .hexDigit digits d

theorem RunAt.takeWhile_eq (h : c.RunAt k t d) : c.rest.takeWhile k.contains = t := by
  rw [h.crosses.rest_eq, Text.takeWhile_append_of_stops h.forall_mem h.stops]

/-- A number ends where no letter or digit goes on behind its suffix. -/
theorem NumberAt.crosses (h : c.NumberAt k digits s suffix d) :
    c.Crosses (digits ++ '~' :: suffix) d ∧ d.rest.Stops CharClass.alphanumeric.contains := by
  obtain ⟨e, hdigits, htilde, hsuffix⟩ := h
  exact ⟨hdigits.crosses.trans (htilde.trans hsuffix.crosses), hsuffix.stops⟩

theorem ColourAt.crosses (h : c.ColourAt digits d) :
    c.Crosses ('#' :: digits) d ∧ d.rest.Stops CharClass.hexDigit.contains := by
  obtain ⟨e, hhash, hdigits⟩ := h
  exact ⟨hhash.trans hdigits.crosses, hdigits.stops⟩

end Cursor

/-- The outer form of a literal lies between the cursors. -/
inductive LiteralForm.At (c d : Cursor) : LiteralForm → Prop
  | bool {b : Bool} (h : c.Word (Text.ofBool b) d) : At c d (.bool b)
  | integer {k : CharClass} {digits suffix : Text} {s : Cursor} (hk : k = .hexDigit ∨ k = .digit)
    (h : c.NumberAt k digits s suffix d) : At c d (.integer c digits s suffix)
  | string {t : Text} (ht : '"' ∉ t) (h : c.Crosses ('"' :: (t ++ ['"'])) d) : At c d (.string t)
  | colour {digits : Text} (h : c.ColourAt digits d) : At c d (.colour c digits)

namespace Parser

variable {c c' d : Cursor} {k : CharClass} {form : LiteralForm} {l : Literal}

/-- A run of a class is read exactly where it stands. -/
theorem run1_eq_ok_iff {t : Text} : (run1 k).outcome c = .ok (t, d) ↔ c.RunAt k t d := by
  rw [outcome_run1]
  constructor
  · intro h
    split at h
    · cases h
    · next hne =>
      cases h
      have hc : c.inSource := Cursor.inSource_of_rest_ne_nil fun hnil => hne (by rw [hnil]; rfl)
      refine ⟨hne, fun ch hch => List.mem_takeWhile_imp hch, ⟨hc, List.takeWhile_prefix _, rfl⟩, ?_⟩
      rw [Cursor.rest_advance, Text.drop_length_takeWhile]
      exact Text.stops_dropWhile _ _
  · intro h
    rw [h.takeWhile_eq, if_neg h.ne_nil, h.crosses.2.2]

/-- A truth value is read where its word stands. -/
theorem booleanForm_eq_ok (h : booleanForm.outcome c = .ok (form, c')) :
    ∃ b, form = .bool b ∧ c.Word (Text.ofBool b) c' := by
  have hword {word : Text} {b : Bool}
      (hok : (keyword word >>= fun _ => pure (.bool b) : Parser LiteralForm).outcome c =
        .ok (form, c')) : form = .bool b ∧ c.Word word c' := by
    rw [outcome_bind] at hok
    obtain ⟨⟨_, d⟩, hkeyword, heq⟩ := bind_eq_ok.1 hok
    cases heq
    exact ⟨rfl, keyword_eq_ok_iff.1 hkeyword⟩
  rw [booleanForm, outcome_bind, outcome_here, ok_bind] at h
  split at h
  · exact ⟨true, hword h⟩
  · exact ⟨false, hword h⟩

/-- An integer is read exactly where digits, a tilde and letters stand. -/
theorem integerForm_eq_ok_iff :
    (integerForm k).outcome c = .ok (form, d) ↔
      ∃ digits s suffix, c.NumberAt k digits s suffix d ∧ form = .integer c digits s suffix := by
  rw [integerForm, outcome_bind, outcome_here, ok_bind, bind_outcome_eq_ok_iff]
  constructor
  · rintro ⟨digits, e, hdigits, h⟩
    obtain ⟨_, s, htilde, h⟩ := bind_outcome_eq_ok_iff.1 h
    rw [outcome_bind, outcome_here, ok_bind] at h
    obtain ⟨suffix, e', hsuffix, heq⟩ := bind_outcome_eq_ok_iff.1 h
    cases heq
    exact ⟨digits, s, suffix, ⟨e, run1_eq_ok_iff.1 hdigits, symbol_eq_ok_iff.1 htilde,
      run1_eq_ok_iff.1 hsuffix⟩, rfl⟩
  · rintro ⟨digits, s, suffix, ⟨e, hdigits, htilde, hsuffix⟩, rfl⟩
    refine ⟨digits, e, run1_eq_ok_iff.2 hdigits, ?_⟩
    refine bind_outcome_eq_ok_iff.2 ⟨(), s, symbol_eq_ok_iff.2 htilde, ?_⟩
    rw [outcome_bind, outcome_here, ok_bind]
    exact bind_outcome_eq_ok_iff.2 ⟨suffix, d, run1_eq_ok_iff.2 hsuffix, rfl⟩

/-- A colour is read exactly where a hash and digits stand. -/
theorem colourForm_eq_ok_iff :
    colourForm.outcome c = .ok (form, d) ↔
      ∃ digits, c.ColourAt digits d ∧ form = .colour c digits := by
  rw [colourForm, outcome_bind, outcome_here, ok_bind, bind_outcome_eq_ok_iff]
  constructor
  · rintro ⟨_, e, hhash, h⟩
    obtain ⟨digits, e', hdigits, heq⟩ := bind_outcome_eq_ok_iff.1 h
    cases heq
    exact ⟨digits, ⟨e, symbol_eq_ok_iff.1 hhash, run1_eq_ok_iff.1 hdigits⟩, rfl⟩
  · rintro ⟨digits, ⟨e, hhash, hdigits⟩, rfl⟩
    refine ⟨(), e, symbol_eq_ok_iff.2 hhash, ?_⟩
    exact bind_outcome_eq_ok_iff.2 ⟨digits, d, run1_eq_ok_iff.2 hdigits, rfl⟩

/-- What a form reads has that form. -/
theorem at_of_literalForms {p : Parser LiteralForm} (hp : p ∈ literalForms)
    (h : p.outcome c = .ok (form, d)) : form.At c d := by
  simp only [literalForms, List.mem_cons, List.not_mem_nil, or_false] at hp
  rcases hp with rfl | rfl | rfl | rfl | rfl
  · obtain ⟨b, rfl, hword⟩ := booleanForm_eq_ok h
    exact .bool hword
  · obtain ⟨digits, s, suffix, hat, rfl⟩ := integerForm_eq_ok_iff.1 h
    exact .integer (.inl rfl) hat
  · obtain ⟨digits, s, suffix, hat, rfl⟩ := integerForm_eq_ok_iff.1 h
    exact .integer (.inr rfl) hat
  · obtain ⟨t, r, rfl, hquote, hrest, rfl⟩ := stringForm_eq_ok h
    have hc : c.inSource := Cursor.inSource_of_rest_ne_nil (by simp [hrest])
    exact .string hquote ⟨hc, ⟨r, by simp [hrest]⟩, by simp⟩
  · obtain ⟨digits, hat, rfl⟩ := colourForm_eq_ok_iff.1 h
    exact .colour hat

/-! ### Literals -/

/-- Where a literal is read, a spelling of it stands and does not go on. -/
theorem spelling_of_literal (h : literal.outcome c = .ok (l, c')) :
    ∃ u, c.Crosses u c' ∧ l.Spelling u ∧ c'.rest.Stops l.goesOn := by
  rw [literal, outcome_bind] at h
  obtain ⟨⟨form, d⟩, hform, hcheck⟩ := bind_eq_ok.1 h
  obtain ⟨l', hcheck, heq⟩ := map_eq_ok.1 hcheck
  cases heq
  rw [outcome_literalForm, mapError_eq_ok] at hform
  obtain ⟨p, hp, hok⟩ := exists_of_choice_eq_ok hform
  cases at_of_literalForms hp hok with
  | bool hword =>
    cases hcheck
    exact ⟨_, hword.1, .bool _, hword.2⟩
  | integer _ hat =>
    obtain ⟨hcross, hstops⟩ := hat.crosses
    rw [LiteralForm.check] at hcheck
    split at hcheck
    · cases hcheck
    · next hsuffix =>
      split at hcheck
      · cases hcheck
      · next hdigits =>
        split at hcheck
        · next hn =>
          cases hcheck
          exact ⟨_, hcross, .int hdigits hsuffix hn, hstops⟩
        · cases hcheck
  | string hquote hcross =>
    cases hcheck
    exact ⟨_, hcross, .string hquote, fun _ _ => rfl⟩
  | colour hat =>
    obtain ⟨hcross, hstops⟩ := hat.crosses
    rw [LiteralForm.check] at hcheck
    split at hcheck
    · next hc =>
      cases hcheck
      exact ⟨_, hcross, .colour hc, hstops⟩
    · cases hcheck

/-- A literal is read exactly where one of its spellings stands and does not go on. -/
theorem literal_eq_ok_iff :
    literal.outcome c = .ok (l, c') ↔
      ∃ u, c.Crosses u c' ∧ l.Spelling u ∧ c'.rest.Stops l.goesOn := by
  refine ⟨spelling_of_literal, ?_⟩
  rintro ⟨u, hcross, hu, hstops⟩
  obtain ⟨_, hok, rfl⟩ := literal_reads_spelling hu hstops hcross.1 hcross.rest_eq
  rw [hok, hcross.2.2]

/-- A name that is read as a literal is a truth value. -/
theorem eq_bool_of_literal {word : Text} {d : Cursor} (hname : name.outcome c = .ok (word, d))
    (h : literal.outcome c = .ok (l, c')) : ∃ b, l = .bool b ∧ word = Text.ofBool b ∧ c' = d := by
  obtain ⟨hword, hat, rfl⟩ := name_eq_ok_iff.1 hname
  obtain ⟨u, hcross, hu, hstops⟩ := literal_eq_ok_iff.1 h
  have hstart : u.Starts isNameStart := by
    have hrest := (Cursor.word_iff.2 ⟨hat, rfl⟩).1.rest_eq
    have hhead := hword.1.append (c.advance word.length).rest
    rw [← hrest, hcross.rest_eq] at hhead
    obtain ⟨ch, u, rfl⟩ := List.exists_cons_of_ne_nil hu.ne_nil
    exact Text.starts_cons.2 (Text.starts_cons.1 hhead)
  obtain ⟨b, rfl, rfl⟩ := hu.eq_bool_of_starts hstart
  have hbool : (Text.ofBool b).IsName := by cases b <;> decide
  have hother : c.atKeyword (Text.ofBool b) := (Cursor.word_iff.1 ⟨hcross, hstops⟩).1
  rw [Cursor.atKeyword_iff_takeWhile hword] at hat
  rw [Cursor.atKeyword_iff_takeWhile hbool] at hother
  have heq : word = Text.ofBool b := hat.symm.trans hother
  exact ⟨b, rfl, heq, heq ▸ hcross.2.2⟩

/-- An operand takes text. -/
theorem literalOrConstant_takes (constants : Table Text Literal) :
    (literalOrConstant constants).Takes fun _ => True := by
  have hcrosses {c c' : Cursor} {l : Literal}
      (hok : (literalOrConstant constants).outcome c = .ok (l, c')) :
      ∃ t, t ≠ [] ∧ c.Crosses t c' := by
    have hliteral (h : literal.outcome c = .ok (l, c')) : ∃ t, t ≠ [] ∧ c.Crosses t c' := by
      obtain ⟨u, hcross, hu, -⟩ := literal_eq_ok_iff.1 h
      exact ⟨u, hu.ne_nil, hcross⟩
    rw [outcome_literalOrConstant] at hok
    split at hok
    · exact hliteral hok
    · next r hname =>
      split at hok
      · cases hok
        obtain ⟨hword, hat⟩ := name_eq_ok_iff.1 hname
        exact ⟨r.1, hword.1.ne_nil, (Cursor.word_iff.2 hat).1⟩
      · exact hliteral hok
  constructor
  · intro c l c' hok
    obtain ⟨t, -, hcross⟩ := hcrosses hok
    exact ⟨hcross.leads, trivial⟩
  · intro c l c' hok
    obtain ⟨t, hne, hcross⟩ := hcrosses hok
    have hpos := List.length_pos_of_ne_nil hne
    rw [hcross.rest_eq, List.length_append]
    omega

end Parser

end EventRules
