/-
# The grammar of literals

Which texts are literals, and of which value, is said here without saying how they are read: truth
values, numbers with the name of a type, quotations and colours. A literal is read exactly where
such a text stands and does not go on.

Reading first settles for an outer form, whose digits are any run of the characters that numbers
have. At every place at most one form stands. So a text that has a form but is no literal fails for
that form alone: its type, or else its value, is not one. Where no form stands, the failures of all
forms are listed.
-/

import EventRules.Proofs.Dispatch
import EventRules.Proofs.LiteralSpelling
import EventRules.Proofs.Positional

namespace EventRules

/-! ### Texts of literals -/

/-- The text is a number, in hexadecimal after `0x` and otherwise in decimal. -/
inductive Text.NumberText : Text → Nat → Prop
  | hex {digits : Text} {n : Nat} (h : digits.HexNumeral n) : NumberText ('0' :: 'x' :: digits) n
  | decimal {digits : Text} {n : Nat} (h : digits.DecimalNumeral n) : NumberText digits n

/-- The text is the literal: a truth value, a number in the range of its type with the name of the
type behind a tilde, a quotation, or a colour with two digits for each component. -/
inductive Literal.Grammar : Literal → Text → Prop
  | true : Grammar (.bool true) "true"
  | false : Grammar (.bool false) "false"
  | int {digits : Text} {width : Width} {n : Nat} (hdigits : digits.NumberText n)
    (hn : n ≤ width.maximum) : Grammar (.int width n) (digits ++ '~' :: width.name)
  | string {t : Text} (ht : '"' ∉ t) : Grammar (.string t) ('"' :: (t ++ ['"']))
  | colour {digits : Text} {c : Colour} (hc : digits.HexBytes c.components) :
    Grammar (.colour c) ('#' :: digits)

/-- Four or five bytes are a colour, and its components are these bytes. -/
theorem Colour.ofComponents?_eq_some_iff {bytes : List Nat} {c : Colour} :
    ofComponents? bytes = some c ↔ c.components = bytes := by
  constructor
  · intro h
    rw [ofComponents?.eq_def] at h
    split at h <;> cases h <;> rfl
  · rintro rfl
    exact c.ofComponents?_components

theorem Colour.exists_ofComponents? {bytes : List Nat} (h : bytes.length = 4 ∨ bytes.length = 5) :
    ∃ c, ofComponents? bytes = some c := by
  rcases h with h | h
  · match bytes, h with
    | [_, _, _, _], _ => exact ⟨_, rfl⟩
  · match bytes, h with
    | [_, _, _, _, _], _ => exact ⟨_, rfl⟩

/-- The suffix of an integer is the name of its type. -/
theorem Width.ofName?_eq_some_iff {suffix : Text} {w : Width} :
    ofName? suffix = some w ↔ w.name = suffix := by
  constructor
  · intro h
    exact of_decide_eq_true (List.find?_some (p := fun w : Width => w.name = suffix) h)
  · rintro rfl
    exact w.ofName?_name

namespace LiteralForm

/-- Digits are a number exactly if they are written as one. -/
theorem number?_eq_some_iff {digits : Text} {n : Nat} :
    number? digits = some n ↔ digits.NumberText n := by
  constructor
  · intro h
    rw [number?.eq_def] at h
    split at h
    · exact .hex (Text.hex?_eq_some_iff.1 h)
    · exact .decimal (Text.decimal?_eq_some_iff.1 h)
  · intro h
    cases h with
    | hex h => rw [number?, Text.hex?_eq_some_iff.2 h]
    | decimal h =>
      rw [number?.eq_def]
      split
      · exact absurd (h.forall_mem 'x' (by simp)) (by decide)
      · exact Text.decimal?_eq_some_iff.2 h

/-- Digits are a colour exactly if they are its components in pairs of hexadecimal digits. -/
theorem colour_eq_some_iff {digits : Text} {c : Colour} :
    (bytes? digits).bind Colour.ofComponents? = some c ↔ digits.HexBytes c.components := by
  rw [Option.bind_eq_some_iff]
  constructor
  · rintro ⟨bytes, hbytes, hc⟩
    rw [Colour.ofComponents?_eq_some_iff.1 hc]
    exact bytes?_eq_some_iff.1 hbytes
  · intro h
    exact ⟨_, bytes?_eq_some_iff.2 h, c.ofComponents?_components⟩

end LiteralForm

/-- The spellings of a literal are those of the grammar. -/
theorem Literal.spelling_iff_grammar {l : Literal} {u : Text} : l.Spelling u ↔ l.Grammar u := by
  constructor
  · intro h
    cases h with
    | bool b => cases b with
      | true => exact .true
      | false => exact .false
    | int hdigits hsuffix hn =>
      rw [← Width.ofName?_eq_some_iff.1 hsuffix]
      exact .int (LiteralForm.number?_eq_some_iff.1 hdigits) hn
    | string ht => exact .string ht
    | colour hc => exact .colour (LiteralForm.colour_eq_some_iff.1 hc)
  · intro h
    cases h with
    | true => exact .bool true
    | false => exact .bool false
    | int hdigits hn =>
      exact .int (LiteralForm.number?_eq_some_iff.2 hdigits) (Width.ofName?_name _) hn
    | string ht => exact .string ht
    | colour hc => exact .colour (LiteralForm.colour_eq_some_iff.2 hc)

/-! ### Numbers stand in one way -/

namespace Cursor

variable {k k' : CharClass} {c d d' s s' : Cursor} {t t' digits digits' suffix suffix' : Text}

/-- A run of a class ends in one place only. -/
theorem RunAt.unique (h : c.RunAt k t d) (h' : c.RunAt k t' d') : t' = t ∧ d' = d := by
  obtain rfl : t' = t := h'.takeWhile_eq.symm.trans h.takeWhile_eq
  exact ⟨rfl, h'.crosses.2.2.trans h.crosses.2.2.symm⟩

/-- The tilde that ends the digits is none of them. -/
theorem NumberAt.digits_lacks (hk : k.contains '~' = false)
    (h : c.NumberAt k digits s suffix d) : '~' ∉ digits := by
  obtain ⟨e, hdigits, -, -⟩ := h
  intro hmem
  rw [hdigits.forall_mem _ hmem] at hk
  cases hk

theorem NumberAt.rest_eq (h : c.NumberAt k digits s suffix d) :
    c.rest = digits ++ '~' :: s.rest := by
  obtain ⟨e, hdigits, htilde, -⟩ := h
  rw [hdigits.crosses.rest_eq, htilde.rest_eq]
  rfl

/-- A number stands in one way at most, whichever class its digits are taken from. -/
theorem NumberAt.unique (hk : k.contains '~' = false) (hk' : k'.contains '~' = false)
    (h : c.NumberAt k digits s suffix d) (h' : c.NumberAt k' digits' s' suffix' d') :
    digits' = digits ∧ s' = s ∧ suffix' = suffix ∧ d' = d := by
  have hrest := h'.rest_eq.symm.trans h.rest_eq
  obtain ⟨rfl, -⟩ := Text.append_cons_inj (h'.digits_lacks hk') (h.digits_lacks hk) hrest
  obtain ⟨e, hdigits, htilde, hsuffix⟩ := h
  obtain ⟨e', hdigits', htilde', hsuffix'⟩ := h'
  obtain rfl : e' = e := hdigits'.crosses.2.2.trans hdigits.crosses.2.2.symm
  obtain rfl : s' = s := htilde'.2.2.trans htilde.2.2.symm
  obtain ⟨rfl, rfl⟩ := hsuffix.unique hsuffix'
  exact ⟨rfl, rfl, rfl, rfl⟩

end Cursor

namespace Parser

variable {α β : Type} {p : Parser α} {c d s : Cursor} {k : CharClass} {form : LiteralForm}
  {digits suffix : Text}

/-! ### How forms fail -/

/-- All failures of the parser are single findings, after which something else may be tried. -/
def Plain (p : Parser α) : Prop :=
  ∀ ⦃c : Cursor⦄ ⦃e : Failure⦄, p.outcome c = .error e →
    ∃ f : Finding, e = Diagnostic.finding f ∧ f.severity = .recoverable

namespace Plain

protected theorem pure (a : α) : (pure a : Parser α).Plain :=
  fun _ _ h => by cases h

protected theorem bind {f : α → Parser β} (hp : p.Plain) (hf : ∀ a, (f a).Plain) :
    (p >>= f).Plain := by
  intro c d h
  rw [outcome_bind] at h
  rcases bind_eq_error.1 h with h | ⟨r, -, h⟩
  · exact hp h
  · exact hf r.1 h

protected theorem here : here.Plain :=
  fun _ _ h => by cases h

protected theorem keyword (word : Text) : (keyword word).Plain := by
  intro c d h
  rw [outcome_keyword] at h
  split at h <;> cases h
  exact ⟨_, rfl, rfl⟩

protected theorem symbol (mark : Text) : (symbol mark).Plain := by
  intro c d h
  rw [outcome_symbol] at h
  split at h <;> cases h
  exact ⟨_, rfl, rfl⟩

protected theorem run1 (k : CharClass) : (run1 k).Plain := by
  intro c d h
  rw [outcome_run1] at h
  split at h <;> cases h
  exact ⟨_, rfl, rfl⟩

protected theorem takeUntil (mark : Text) : (takeUntil mark).Plain := by
  intro c d h
  rw [outcome_takeUntil] at h
  split at h <;> cases h
  exact ⟨_, rfl, rfl⟩

/-- Such a parser declines where it does not succeed. -/
theorem declines (hp : p.Plain) (h : ∀ r, p.outcome c ≠ .ok r) : p.Declines c := by
  cases hout : p.outcome c with
  | ok r => exact absurd hout (h r)
  | error d =>
    obtain ⟨f, rfl, hf⟩ := hp hout
    exact ⟨_, hout, by simp [Diagnostic.isFatal, Diagnostic.severity, hf]⟩

end Plain

/-- Every form of a literal fails with a single finding. -/
theorem literalForms_plain : ∀ p ∈ literalForms, p.Plain := by
  have hinteger (k : CharClass) : (integerForm k).Plain :=
    .bind .here fun _ => .bind (.run1 k) fun _ => .bind (.symbol _) fun _ => .bind .here fun _ =>
      .bind (.run1 _) fun _ => .pure _
  have hbool : booleanForm.Plain := by
    refine .bind .here fun c => ?_
    split <;> exact .bind (.keyword _) fun _ => .pure _
  have hstring : stringForm.Plain :=
    .bind (.symbol _) fun _ => .bind (.takeUntil _) fun _ => .bind (.symbol _) fun _ => .pure _
  have hcolour : colourForm.Plain :=
    .bind .here fun _ => .bind (.symbol _) fun _ => .bind (.run1 _) fun _ => .pure _
  simp only [literalForms, List.forall_mem_cons]
  exact ⟨hbool, hinteger _, hinteger _, hstring, hcolour, List.forall_mem_nil _⟩

/-! ### Reading the outer form -/

/-- Between the letters of a truth value and a tilde stands a letter that no number has. -/
theorem head?_dropWhile_ofBool (hk : k = .hexDigit ∨ k = .digit) (b : Bool) (r : Text) :
    ((Text.ofBool b ++ r).dropWhile k.contains).head? ≠ some '~' := by
  rcases hk with rfl | rfl <;> cases b <;> exact fun h => by cases h

/-- A number is no truth value. -/
theorem booleanForm_declines_of_number (hk : k = .hexDigit ∨ k = .digit)
    (h : c.NumberAt k digits s suffix d) : booleanForm.Declines c := by
  refine (literalForms_plain booleanForm (List.mem_cons_self ..)).declines ?_
  rintro ⟨form, e⟩ hok
  obtain ⟨b, -, hword, -⟩ := booleanForm_eq_ok hok
  apply head?_dropWhile_ofBool hk b e.rest
  obtain ⟨e', hdigits, htilde, -⟩ := h
  rw [← hword.rest_eq, hdigits.crosses.rest_eq,
    Text.dropWhile_append_of_stops hdigits.forall_mem hdigits.stops, htilde.rest_eq]
  rfl

/-- What a form reads after the earlier ones have declined is what is read. -/
theorem literalForms_of_declines {p : Parser LiteralForm} (before : List (Parser LiteralForm))
    {after : List (Parser LiteralForm)} (hforms : literalForms = before ++ p :: after)
    (hbefore : ∀ q ∈ before, q.Declines c) {r : LiteralForm × Cursor} (hok : p.outcome c = .ok r) :
    (alt literalForms).outcome c = .ok r := by
  rw [alt, hforms, outcome_choice_of_declines hbefore (not_declines_of_ok hok), hok]

/-- A number is read by one of the two forms of integers, and by both in the same way. -/
theorem literalForms_read_number (hk : k = .hexDigit ∨ k = .digit)
    (h : c.NumberAt k digits s suffix d) :
    (alt literalForms).outcome c = .ok (.integer c digits s suffix, d) := by
  have hbool := booleanForm_declines_of_number hk h
  have hok : (integerForm k).outcome c = .ok (.integer c digits s suffix, d) :=
    integerForm_eq_ok_iff.2 ⟨digits, s, suffix, h, rfl⟩
  have htilde : k.contains '~' = false := by rcases hk with rfl | rfl <;> decide
  by_cases hhex : (integerForm .hexDigit).Declines c
  · obtain rfl : k = .digit := by
      rcases hk with rfl | rfl
      · exact absurd hhex (not_declines_of_ok hok)
      · rfl
    exact literalForms_of_declines [booleanForm, integerForm .hexDigit] rfl
      (List.forall_mem_cons.2 ⟨hbool, List.forall_mem_singleton.2 hhex⟩) hok
  · -- the hexadecimal form reads something, and that is the same number
    have hplain := literalForms_plain (integerForm .hexDigit) (by simp [literalForms])
    have hread : ∃ r, (integerForm .hexDigit).outcome c = .ok r := by
      by_contra hnone
      exact hhex (hplain.declines fun r hr => hnone ⟨r, hr⟩)
    obtain ⟨⟨form, e⟩, hread⟩ := hread
    obtain ⟨digits', s', suffix', hat, rfl⟩ := integerForm_eq_ok_iff.1 hread
    obtain ⟨rfl, rfl, rfl, rfl⟩ := h.unique htilde (by decide) hat
    exact literalForms_of_declines [booleanForm] rfl (List.forall_mem_singleton.2 hbool) hread

/-- The outer form of a literal is read exactly where it stands. -/
theorem literalForms_eq_ok_iff :
    (alt literalForms).outcome c = .ok (form, d) ↔ form.At c d := by
  constructor
  · intro h
    obtain ⟨p, hp, hok⟩ := exists_of_choice_eq_ok h
    exact at_of_literalForms hp hok
  · intro h
    cases h with
    | @bool b h =>
      have hok : booleanForm.outcome c = .ok (.bool b, d) := by
        obtain ⟨_, hok, rfl⟩ := booleanForm_reads b h.2 h.1.1 h.1.rest_eq
        rw [hok, h.1.2.2]
      exact literalForms_of_declines [] rfl (List.forall_mem_nil _) hok
    | integer hk h => exact literalForms_read_number hk h
    | @string t ht h =>
      have hok : stringForm.outcome c = .ok (.string t, d) := by
        obtain ⟨_, hok, rfl⟩ := stringForm_reads ht h.1 h.rest_eq
        rw [hok, h.2.2]
      exact literalForms_of_declines [booleanForm, integerForm .hexDigit, integerForm .digit] rfl
        (fun q hq => earlierForms_reject (.inl rfl) _ q hq h.1 h.rest_eq) hok
    | @colour digits h =>
      have hok : colourForm.outcome c = .ok (.colour c digits, d) :=
        colourForm_eq_ok_iff.2 ⟨digits, h, rfl⟩
      obtain ⟨e, hhash, -⟩ := h
      refine literalForms_of_declines
        ([booleanForm, integerForm .hexDigit, integerForm .digit] ++ [stringForm]) rfl ?_ hok
      rw [List.forall_mem_append, List.forall_mem_singleton]
      refine ⟨fun q hq => earlierForms_reject (.inr rfl) _ q hq hhash.1 hhash.rest_eq, ?_⟩
      exact (symbol_rejects (Text.stops_cons.2 (by decide))).bind hhash.1 hhash.rest_eq

/-- Where a form stands, what becomes of the literal depends on that form alone. -/
theorem literal_of_form (h : form.At c d) :
    literal.outcome c = (form.check.mapError .diagnostic).map (·, d) := by
  rw [literal, outcome_bind, outcome_literalForm, literalForms_eq_ok_iff.2 h]
  rfl

/-- Where no form stands, a literal is expected, and every form says what it is missing. -/
theorem literal_of_no_form (h : ∀ (form : LiteralForm) d, ¬ form.At c d) :
    ∃ failures, List.Forall₂ (fun p (d : Diagnostic) => p.outcome c = .error d)
        literalForms failures ∧
      literal.outcome c =
        .error (Diagnostic.expectedBecause c .literal (.oneOf failures .recoverable)) := by
  have hfails : ∀ p ∈ literalForms, ∃ f : Finding,
      p.outcome c = .error (Diagnostic.finding f) ∧ f.severity = .recoverable := by
    intro p hp
    cases hout : p.outcome c with
    | ok r => exact absurd (at_of_literalForms hp hout) (h r.1 r.2)
    | error e =>
      obtain ⟨f, rfl, hf⟩ := literalForms_plain p hp hout
      exact ⟨f, rfl, hf⟩
  have : Nonempty Finding := ⟨{ location := none, problem := .duplicateName }⟩
  -- no form adds more than one alternative, so the failures are listed as they are
  choose! finding hfinding using hfails
  refine ⟨literalForms.map fun p => .finding (finding p), ?_, ?_⟩
  · rw [List.forall₂_map_right_iff, List.forall₂_same]
    exact fun p hp => (hfinding p hp).1
  · have hall : (choice [] (literalForms.map id)).outcome c =
        .error (Diagnostic.combine ([] ++ literalForms.map fun p => .finding (finding p))) :=
      outcome_choice_of_missing (fun p hp => (hfinding p hp).1)
        fun p hp => by simp [Diagnostic.isFatal, Diagnostic.severity, (hfinding p hp).2]
    rw [List.map_id, List.nil_append] at hall
    rw [literal, outcome_bind, outcome_literalForm, alt, hall]
    rfl

end Parser

/-! ### Checking the outer form -/

namespace LiteralForm

variable {c s : Cursor} {digits suffix : Text}

/-- Only the name of a type is a suffix. -/
theorem check_integer_of_type (h : ∀ w : Width, w.name ≠ suffix) :
    (integer c digits s suffix).check = .error (.expectedIn s suffix.length .type) := by
  have hnone : Width.ofName? suffix = none := by
    rw [Option.eq_none_iff_forall_ne_some]
    exact fun w hw => h w (Width.ofName?_eq_some_iff.1 hw)
  rw [check, hnone]

/-- Only a number in the range of the type is a value. -/
theorem check_integer_of_value {w : Width} (h : ∀ n ≤ w.maximum, ¬ digits.NumberText n) :
    (integer c digits s w.name).check = .error (.expectedIn c digits.length .value) := by
  rw [check, w.ofName?_name]
  dsimp only
  split
  · rfl
  · next n hn => exact if_neg fun hle => h n hle (number?_eq_some_iff.1 hn)

/-- Digits are a colour if there are two of them for each of four or five components. -/
theorem exists_colour_iff (h : ∀ ch ∈ digits, CharClass.hexDigit.contains ch) :
    (∃ k : Colour, digits.HexBytes k.components) ↔
      'x' ∉ digits ∧ (digits.length = 8 ∨ digits.length = 10) := by
  constructor
  · rintro ⟨k, hk⟩
    refine ⟨fun hx => absurd (hk.isHexDigit _ hx) (by decide), ?_⟩
    rw [hk.length_eq]
    cases k with
    | rgb => exact .inl rfl
    | rgbw => exact .inr rfl
  · rintro ⟨hx, hlength⟩
    have hmem : ∀ ch ∈ digits, Text.isHexDigit ch := by
      intro ch hch
      rcases Bool.or_eq_true_iff.1 (h ch hch) with hdigit | hmark
      · exact hdigit
      · exact absurd hch (of_decide_eq_true hmark ▸ hx)
    obtain ⟨bytes, hbytes, hcount⟩ :=
      Text.exists_hexBytes (n := digits.length / 2) hmem (by omega)
    have hcomponents : bytes.length = 4 ∨ bytes.length = 5 := by omega
    obtain ⟨k, hk⟩ := Colour.exists_ofComponents? hcomponents
    exact ⟨k, Colour.ofComponents?_eq_some_iff.1 hk ▸ hbytes⟩

/-- Digits that are the components of a colour pass the check. -/
theorem check_colour {k : Colour} (h : digits.HexBytes k.components) :
    (colour c digits).check = .ok (.colour k) := by
  rw [check, colour_eq_some_iff.2 h]

/-- Any other digits after a hash are reported as a whole. -/
theorem check_colour_of_value (h : ¬ ∃ k : Colour, digits.HexBytes k.components) :
    (colour c digits).check = .error (.expectedIn c (digits.length + 1) .value) := by
  rw [check]
  split
  · next k hk => exact absurd ⟨k, colour_eq_some_iff.1 hk⟩ h
  · rfl

end LiteralForm

namespace Parser

/-- A literal is read exactly where a text of it stands and does not go on. Of the other texts, a
number with a suffix fails at the suffix if that is no type, and otherwise at its digits; a colour
fails as a whole; and where not even the form of a literal stands, a literal is expected, with
the failure of each form. -/
theorem literal_grammar (c : Cursor) :
    (∀ l d, literal.outcome c = .ok (l, d) ↔
      ∃ u, c.Crosses u d ∧ l.Grammar u ∧ d.rest.Stops l.goesOn) ∧
    (∀ k digits s suffix d, k = .hexDigit ∨ k = .digit → c.NumberAt k digits s suffix d →
      ((∀ w : Width, w.name ≠ suffix) →
        literal.outcome c = .error (Diagnostic.expectedIn s suffix.length .type)) ∧
      (∀ w : Width, w.name = suffix → (∀ n ≤ w.maximum, ¬ digits.NumberText n) →
        literal.outcome c = .error (Diagnostic.expectedIn c digits.length .value))) ∧
    (∀ digits d, c.ColourAt digits d →
      if 'x' ∉ digits ∧ (digits.length = 8 ∨ digits.length = 10) then
        ∃ k : Colour, digits.HexBytes k.components ∧ literal.outcome c = .ok (.colour k, d)
      else literal.outcome c = .error (Diagnostic.expectedIn c (digits.length + 1) .value)) ∧
    ((∀ (form : LiteralForm) d, ¬ form.At c d) →
      ∃ failures, List.Forall₂ (fun p (d : Diagnostic) => p.outcome c = .error d)
          literalForms failures ∧
        literal.outcome c =
          .error (Diagnostic.expectedBecause c .literal (.oneOf failures .recoverable))) := by
  refine ⟨fun l d => ?_, fun k digits s suffix d hk h => ⟨fun htype => ?_, ?_⟩,
    fun digits d h => ?_, literal_of_no_form⟩
  · simp only [literal_eq_ok_iff, Literal.spelling_iff_grammar]
  · rw [literal_of_form (.integer hk h), LiteralForm.check_integer_of_type htype]
    rfl
  · rintro w rfl hvalue
    rw [literal_of_form (.integer hk h), LiteralForm.check_integer_of_value hvalue]
    rfl
  · have hmem : ∀ ch ∈ digits, CharClass.hexDigit.contains ch := by
      obtain ⟨e, -, hrun⟩ := h
      exact hrun.forall_mem
    rw [literal_of_form (.colour h)]
    split
    · next hcolour =>
      obtain ⟨k, hk⟩ := (LiteralForm.exists_colour_iff hmem).2 hcolour
      exact ⟨k, hk, by rw [LiteralForm.check_colour hk]; rfl⟩
    · next hnone =>
      rw [← LiteralForm.exists_colour_iff hmem] at hnone
      rw [LiteralForm.check_colour_of_value hnone]
      rfl

/-- A number too large for its type, and a mark that is the form of nothing. -/
theorem literal_grammar_overflow :
    let c := Source.start ⟨[], "256~u8"⟩
    let mark := Source.start ⟨[], "-"⟩
    (c.NumberAt .digit "256" (c.advance 4) "u8" (c.advance 6) ∧
      (∀ n ≤ Width.u8.maximum, ¬ Text.NumberText "256" n) ∧
      literal.outcome c = .error (Diagnostic.expectedIn c 3 .value)) ∧
    (∀ (form : LiteralForm) d, ¬ form.At mark d) ∧
      ∃ reason, literal.outcome mark =
        .error (Diagnostic.expectedBecause mark .literal reason) := by
  intro c mark
  have hat : c.NumberAt .digit "256" (c.advance 4) "u8" (c.advance 6) := by
    refine ⟨c.advance 3, ⟨by decide, by decide, ⟨rfl, ⟨_, rfl⟩, rfl⟩, ?_⟩, ⟨rfl, ⟨_, rfl⟩, rfl⟩,
      ⟨by decide, by decide, ⟨rfl, ⟨_, rfl⟩, rfl⟩, Text.stops_nil _⟩⟩
    exact Text.stops_cons.2 (by decide)
  have hvalue : ∀ n ≤ Width.u8.maximum, ¬ Text.NumberText "256" n := by
    intro n hn hnumber
    cases LiteralForm.number?_eq_some_iff.2 hnumber
    exact absurd hn (by decide)
  have hnone : ∀ (form : LiteralForm) d, ¬ form.At mark d := by
    intro form d h
    cases literalForms_eq_ok_iff.2 h
  obtain ⟨failures, -, hfail⟩ := (literal_grammar mark).2.2.2 hnone
  exact ⟨⟨hat, hvalue, ((literal_grammar c).2.1 _ _ _ _ _ (.inr rfl) hat).2 .u8 rfl hvalue⟩,
    hnone, _, hfail⟩

end Parser

end EventRules
