/-
# Literals read back

A literal has many spellings: its digits may be decimal or hexadecimal, and of either case. Each of
them is read as the literal, provided that what follows cannot go on with it, and the text of a
literal that is in range is one of its spellings. Where no constant is called `true` or `false`, a
literal is read back as an operand too.
-/

import EventRules.Proofs.Reading
import EventRules.Proofs.Typing

namespace EventRules

/-! ### Characters of literals -/

theorem Width.ofName?_name (w : Width) : ofName? w.name = some w := by
  cases w <;> rfl

theorem isNameChar_of_contains {k : CharClass} (hk : k = .hexDigit ∨ k = .alphanumeric) {c : Char}
    (h : k.contains c) : isNameChar c := by
  rw [isNameChar, Bool.or_eq_true, Text.isAlphanum_iff]
  left
  rcases hk with rfl | rfl
  · rw [CharClass.contains, Bool.or_eq_true, Text.isHexDigit_iff, decide_eq_true_iff] at h
    rcases h with h | rfl
    · omega
    · decide
  · exact Text.isAlphanum_iff.1 h

theorem isNameChar_of_isDigit {c : Char} (h : c.isDigit) : isNameChar c :=
  isNameChar_of_contains (.inr rfl) (Bool.or_eq_true_iff.2 (.inr h))

/-- The bytes of a colour are read back from two digits each. -/
theorem LiteralForm.bytes?_flatMap {bytes : List Nat} (h : ∀ n ∈ bytes, n < 256) :
    bytes? (bytes.flatMap (Text.hexPadded 2)) = some bytes := by
  induction bytes with
  | nil => rfl
  | cons n bytes ih =>
    rw [List.forall_mem_cons] at h
    have hlength := Text.length_hexPadded 2 (by decide) h.1
    obtain ⟨a, b, hdigits⟩ := List.length_eq_two.1 hlength
    have hbyte : Text.hex? [a, b] = some n := by rw [← hdigits, Text.hex?_hexPadded]
    rw [List.flatMap_cons, hdigits]
    change (Text.hex? [a, b] >>= fun byte => bytes? (bytes.flatMap _) >>= fun bytes =>
      some (byte :: bytes)) = _
    rw [hbyte, ih h.2]
    rfl

theorem Width.letters_of_ofName? {suffix : Text} {width : Width}
    (h : Width.ofName? suffix = some width) :
    suffix ≠ [] ∧ ∀ c ∈ suffix, CharClass.alphanumeric.contains c := by
  obtain rfl : width.name = suffix :=
    of_decide_eq_true (List.find?_some (p := fun w : Width => w.name = suffix) h)
  cases width <;> decide

/-- The digits of a number start with a decimal digit. -/
theorem LiteralForm.digits_of_number? {digits : Text} {n : Nat} (h : number? digits = some n) :
    digits.Starts Char.isDigit ∧ ∀ c ∈ digits, CharClass.hexDigit.contains c := by
  rw [number?.eq_def] at h
  split at h
  · next digits =>
    rw [Text.hex?] at h
    split at h
    · next hdigits =>
      refine ⟨Text.starts_cons.2 (by decide), ?_⟩
      simp only [List.forall_mem_cons]
      refine ⟨by decide, by decide, fun c hc => ?_⟩
      exact Bool.or_eq_true_iff.2 (.inl (List.all_eq_true.1 hdigits.2 c hc))
    · cases h
  · rw [Text.decimal?] at h
    split at h
    · next hdigits =>
      have hall := List.all_eq_true.1 hdigits.2
      constructor
      · cases digits with
        | nil => exact absurd rfl hdigits.1
        | cons c digits => exact Text.starts_cons.2 (hall c (List.mem_cons_self ..))
      · intro c hc
        have hhex : Text.isHexDigit c := by simp [Text.isHexDigit, hall c hc]
        exact Bool.or_eq_true_iff.2 (.inl hhex)
    · cases h

theorem LiteralForm.isHexDigit_of_bytes? {digits : Text} {bytes : List Nat}
    (h : bytes? digits = some bytes) : ∀ c ∈ digits, Text.isHexDigit c := by
  fun_induction bytes? digits generalizing bytes with
  | case1 => exact fun _ hc => nomatch hc
  | case2 => cases h
  | case3 a b digits ih =>
    obtain ⟨byte, hbyte, h⟩ := Option.bind_eq_some_iff.1 h
    obtain ⟨rest, hrest, -⟩ := Option.bind_eq_some_iff.1 h
    rw [Text.hex?] at hbyte
    split at hbyte
    · next hpair =>
      have hall := List.all_eq_true.1 hpair.2
      exact List.forall_mem_cons.2 ⟨hall a (by simp),
        List.forall_mem_cons.2 ⟨hall b (by simp), ih hrest⟩⟩
    · cases hbyte

/-! ### Spellings -/

/-- The text spells the literal. -/
inductive Literal.Spelling : Literal → Text → Prop
  | bool (b : Bool) : Spelling (.bool b) (Text.ofBool b)
  | int {digits suffix : Text} {width : Width} {n : Nat}
    (hdigits : LiteralForm.number? digits = some n) (hsuffix : Width.ofName? suffix = some width)
    (hn : n ≤ width.maximum) : Spelling (.int width n) (digits ++ '~' :: suffix)
  | string {t : Text} (ht : '"' ∉ t) : Spelling (.string t) ('"' :: (t ++ ['"']))
  | colour {digits : Text} {c : Colour}
    (hc : (LiteralForm.bytes? digits).bind Colour.ofComponents? = some c) :
    Spelling (.colour c) ('#' :: digits)

/-- The characters with which a spelling would go on, so that they cannot follow it. -/
def Literal.goesOn : Literal → Char → Bool
  | bool _ => isNameChar
  | int .. => CharClass.alphanumeric.contains
  | string _ => fun _ => false
  | colour _ => CharClass.hexDigit.contains

/-- A literal ends where no name goes on. -/
theorem Literal.isNameChar_of_goesOn (l : Literal) {ch : Char} (h : l.goesOn ch) :
    isNameChar ch := by
  cases l with
  | bool b => exact h
  | int width n => exact isNameChar_of_contains (.inr rfl) h
  | string t => cases h
  | colour c => exact isNameChar_of_contains (.inl rfl) h

/-- What is no part of a name goes on with no literal. -/
theorem Literal.stops_goesOn (l : Literal) {v : Text} (h : v.Stops isNameChar) :
    v.Stops l.goesOn :=
  h.mono fun _ => l.isNameChar_of_goesOn

/-- The text of a literal in range spells it. -/
theorem Literal.spelling_text {l : Literal} (hl : l.Fits Width.size) : l.Spelling l.text := by
  cases l with
  | bool b => exact .bool b
  | int width n =>
    have htext : (Literal.int width n).text = '0' :: 'x' :: Text.hex n ++ '~' :: width.name := by
      rw [Literal.text, List.append_assoc, List.append_assoc]
      rfl
    rw [htext]
    exact .int (Text.hex?_hex n) width.ofName?_name (Width.lt_size_iff.1 hl)
  | string t =>
    have htext : (Literal.string t).text = '"' :: (t ++ ['"']) := by
      rw [Literal.text, List.append_assoc]
      rfl
    rw [htext]
    exact .string hl
  | colour c =>
    have hdigits : (LiteralForm.bytes? (c.components.flatMap (Text.hexPadded 2))).bind
        Colour.ofComponents? = some c := by
      rw [LiteralForm.bytes?_flatMap hl, Option.bind_some, Colour.ofComponents?_components]
    exact .colour hdigits

namespace Parser

variable {u v : Text}

/-! ### Forms of literals -/

theorem takeUntil_reads {mark : Char} (hu : mark ∉ u) :
    (takeUntil [mark]).Reads u (mark :: v) (· = u) := by
  intro c hc hrest
  have hprefix : u ++ [mark] <+: c.rest := ⟨v, by rw [hrest, List.append_assoc]; rfl⟩
  refine ⟨u, ?_, rfl⟩
  rw [outcome_takeUntil, if_pos hc, Text.before?_eq_some_iff.2 ⟨hu, hprefix⟩]
  dsimp only
  rw [hrest, List.take_left]

theorem booleanForm_reads (b : Bool) (hv : v.Stops isNameChar) :
    booleanForm.Reads (Text.ofBool b) v (· = .bool b) := by
  refine .here fun c hc hrest => ?_
  cases b with
  | true =>
    have hat : c.atKeyword "true" := Cursor.atKeyword_of_rest hc hrest hv
    rw [if_pos hat]
    exact .bind (w := []) (keyword_reads _ hv) fun _ _ => .pure rfl
  | false =>
    have hother : ¬ ("true" : Text) <+: c.rest := by
      rw [hrest]
      rintro ⟨w, hw⟩
      exact absurd (List.cons.inj hw).1 (by decide)
    rw [if_neg (Cursor.not_atKeyword hother)]
    exact .bind (w := []) (keyword_reads _ hv) fun _ _ => .pure rfl

/-- Where neither letter of a truth value stands, `false` is expected. -/
theorem booleanForm_rejects {r : Text} (h : r.Stops fun c => c = 't' || c = 'f') :
    booleanForm.Rejects r := by
  have htrue : r.Stops (· = 't') := fun c hc => (Bool.or_eq_false_iff.1 (h c hc)).1
  have hfalse : r.Stops (· = 'f') := fun c hc => (Bool.or_eq_false_iff.1 (h c hc)).2
  intro c hc hrest
  have hother : ¬ ("true" : Text) <+: c.rest := by
    rw [hrest]
    rintro ⟨w, rfl⟩
    exact absurd (htrue 't' rfl) (by decide)
  obtain ⟨d, herror, hfatal⟩ := (keyword_rejects_of_stops rfl hfalse : (keyword "false").Rejects _)
    hc hrest
  refine ⟨d, ?_, hfatal⟩
  rw [booleanForm, outcome_bind, outcome_here, ok_bind, if_neg (Cursor.not_atKeyword hother),
    outcome_bind, herror]
  rfl

/-- Digits, a tilde and letters are read as an integer, and checked later. -/
theorem integerForm_reads {digits suffix : Text} (hdigits : digits ≠ [])
    (hmem : ∀ c ∈ digits, CharClass.hexDigit.contains c) (hsuffix : suffix ≠ [])
    (hletters : ∀ c ∈ suffix, CharClass.alphanumeric.contains c)
    (hv : v.Stops CharClass.alphanumeric.contains) :
    (integerForm .hexDigit).Reads (digits ++ '~' :: suffix) v fun form =>
      ∃ digitsAt suffixAt, form = .integer digitsAt digits suffixAt suffix := by
  refine .here fun digitsAt _ _ => ?_
  refine .bind (run1_reads hdigits hmem (Text.stops_cons.2 (by decide))) fun _ h => ?_
  refine .bind (u := ['~']) (symbol_reads '~') fun _ _ => .here fun suffixAt _ _ => ?_
  refine .of_eq (.bind (w := []) (run1_reads hsuffix hletters hv)
    fun _ h' => .pure ⟨digitsAt, suffixAt, ?_⟩) (List.append_nil _)
  rw [h, h']

theorem integerForm_rejects {k : CharClass} {r : Text} (h : r.Stops k.contains) :
    (integerForm k).Rejects r := by
  intro c hc hrest
  obtain ⟨d, herror, hfatal⟩ := run1_rejects h hc hrest
  exact ⟨d, by rw [integerForm, outcome_bind, outcome_here, ok_bind, outcome_bind, herror]; rfl,
    hfatal⟩

theorem stringForm_reads (hu : '"' ∉ u) :
    stringForm.Reads ('"' :: (u ++ ['"'])) v (· = .string u) := by
  refine .bind (u := ['"']) (symbol_reads '"') fun _ _ => ?_
  refine .bind (takeUntil_reads hu) fun _ h => ?_
  refine .bind (w := []) (symbol_reads '"') fun _ _ => .pure (by rw [h])

/-- Digits after a hash are read as a colour, and checked later. -/
theorem colourForm_reads (hne : u ≠ []) (hu : ∀ c ∈ u, CharClass.hexDigit.contains c)
    (hv : v.Stops CharClass.hexDigit.contains) :
    colourForm.Reads ('#' :: u) v fun form => ∃ start, form = .colour start u := by
  refine .here fun start _ _ => .bind (u := ['#']) (symbol_reads '#') fun _ _ => ?_
  exact .of_eq (.bind (w := []) (run1_reads hne hu hv) fun _ h =>
    .pure ⟨start, by rw [h]⟩) (List.append_nil _)

/-! ### Literals -/

/-- Neither a quotation nor a colour starts like a truth value or a number. -/
theorem earlierForms_reject {ch : Char} (hch : ch = '"' ∨ ch = '#') (r : Text) :
    ∀ p ∈ [booleanForm, integerForm .hexDigit, integerForm .digit], p.Rejects (ch :: r) := by
  simp only [List.forall_mem_cons]
  rcases hch with rfl | rfl <;>
    exact ⟨booleanForm_rejects (Text.stops_cons.2 (by decide)),
      integerForm_rejects (Text.stops_cons.2 (by decide)),
      integerForm_rejects (Text.stops_cons.2 (by decide)), fun _ h => nomatch h⟩

/-- A number in the range of its type passes the check of its form. -/
theorem literalForms_read_int {digits suffix : Text} {width : Width} {n : Nat}
    (hdigits : LiteralForm.number? digits = some n) (hsuffix : Width.ofName? suffix = some width)
    (hn : n ≤ width.maximum) (hv : v.Stops CharClass.alphanumeric.contains) :
    (alt literalForms).Reads (digits ++ '~' :: suffix) v (·.check = .ok (.int width n)) := by
  obtain ⟨hstart, hmem⟩ := LiteralForm.digits_of_number? hdigits
  obtain ⟨hne, hletters⟩ := Width.letters_of_ofName? hsuffix
  refine .choice [booleanForm] (List.forall_mem_singleton.2 ?_) ?_
  · refine booleanForm_rejects ((hstart.append _).append v |>.stops fun c hc => ?_)
    rw [Bool.or_eq_false_iff, decide_eq_false_iff_not, decide_eq_false_iff_not]
    constructor <;> rintro rfl <;> exact absurd hc (by decide)
  · refine (integerForm_reads hstart.ne_nil hmem hne hletters hv).mono ?_
    rintro _ ⟨digitsAt, suffixAt, rfl⟩
    simp only [LiteralForm.check, hsuffix, hdigits, if_pos hn]

/-- A text without double quotes is read in quotes. -/
theorem literalForms_read_string {t : Text} (ht : '"' ∉ t) :
    (alt literalForms).Reads ('"' :: (t ++ ['"'])) v (·.check = .ok (.string t)) := by
  apply Reads.choice [booleanForm, integerForm .hexDigit, integerForm .digit]
  · exact earlierForms_reject (.inl rfl) _
  · exact (stringForm_reads ht).mono fun _ h => by rw [h]; rfl

/-- A colour has bytes, so its digits are not missing. -/
theorem literalForms_read_colour {digits : Text} {c : Colour}
    (hc : (LiteralForm.bytes? digits).bind Colour.ofComponents? = some c)
    (hv : v.Stops CharClass.hexDigit.contains) :
    (alt literalForms).Reads ('#' :: digits) v (·.check = .ok (.colour c)) := by
  obtain ⟨bytes, hbytes, hcomponents⟩ := Option.bind_eq_some_iff.1 hc
  have hne : digits ≠ [] := by
    rintro rfl
    cases hbytes
    cases hcomponents
  have hmem : ∀ ch ∈ digits, CharClass.hexDigit.contains ch := fun ch hch =>
    Bool.or_eq_true_iff.2 (.inl (LiteralForm.isHexDigit_of_bytes? hbytes ch hch))
  apply Reads.choice ([booleanForm, integerForm .hexDigit, integerForm .digit] ++ [stringForm])
  · rw [List.forall_mem_append]
    refine ⟨earlierForms_reject (.inr rfl) _, List.forall_mem_singleton.2 ?_⟩
    exact (symbol_rejects (Text.stops_cons.2 (by decide))).bind
  · refine (colourForm_reads hne hmem hv).mono ?_
    rintro _ ⟨start, rfl⟩
    simp only [LiteralForm.check, hc]

/-- A spelling of a literal is read by the form that checks to it. -/
theorem literalForm_reads {l : Literal} (hu : l.Spelling u) (hv : v.Stops l.goesOn) :
    literalForm.Reads u v (·.check = .ok l) := by
  suffices halt : (alt literalForms).Reads u v (·.check = .ok l) by
    intro c hc hrest
    obtain ⟨form, hok, hform⟩ := halt hc hrest
    exact ⟨form, by rw [outcome_literalForm, hok]; rfl, hform⟩
  cases hu with
  | bool b =>
    exact .choice [] (fun _ h => nomatch h)
      ((booleanForm_reads b hv).mono fun _ h => by rw [h]; rfl)
  | int hdigits hsuffix hn => exact literalForms_read_int hdigits hsuffix hn hv
  | string ht => exact literalForms_read_string ht
  | colour hc => exact literalForms_read_colour hc hv

/-- Every spelling of a literal is read as the literal. -/
theorem literal_reads_spelling {l : Literal} (hu : l.Spelling u) (hv : v.Stops l.goesOn) :
    literal.Reads u v (· = l) :=
  .of_eq (.bind (w := []) (literalForm_reads hu hv) fun _ h => .ofExcept (by rw [h]; rfl) rfl)
    (List.append_nil _)

/-- The text of a literal is read as the literal. -/
theorem literal_reads {l : Literal} (hl : l.Fits Width.size) (hv : v.Stops isNameChar) :
    literal.Reads l.text v (· = l) :=
  literal_reads_spelling (Literal.spelling_text hl) (l.stops_goesOn hv)

end Parser

/-! ### Operands -/

/-- No constant is called `true` or `false`. -/
def Table.SparesBooleans (constants : Table Text Literal) : Prop :=
  ∀ b, constants.get? (Text.ofBool b) = none

/-- A literal starts with neither space nor a mark of a list. -/
theorem Literal.starts_text (l : Literal) : l.text.Starts fun c => !(isSpace c || c = ')') := by
  cases l with
  | bool b => cases b <;> exact Text.starts_cons.2 (by decide)
  | int width n | string t | colour x => exact Text.starts_cons.2 (by decide)

theorem Literal.not_isSpace (c : Char) (h : !(isSpace c || c = ')')) : isSpace c = false := by
  rw [Bool.not_eq_true', Bool.or_eq_false_iff] at h
  exact h.1

/-- Only truth values are words. -/
theorem Literal.eq_bool_of_starts {l : Literal} (h : l.text.Starts isNameStart) :
    ∃ b, l = .bool b := by
  cases l with
  | bool b => exact ⟨b, rfl⟩
  | int width n | string t | colour x => exact absurd (Text.starts_cons.1 h) (by decide)

/-- The text of a literal is read as the literal where constants may stand, unless a truth value is
the name of a constant. -/
theorem Parser.literalOrConstant_reads {constants : Table Text Literal} {l : Literal} {v : Text}
    (hclear : constants.SparesBooleans) (hl : l.Fits Width.size) (hv : v.Stops isNameChar) :
    (literalOrConstant constants).Reads l.text v (· = l) := by
  intro c hc hrest
  suffices h : (literalOrConstant constants).outcome c = literal.outcome c by
    rw [h]
    exact literal_reads hl hv hc hrest
  rw [outcome_literalOrConstant]
  split
  · rfl
  · next r hname =>
    rw [outcome_name] at hname
    split at hname
    · next hstart =>
      -- a name stands here, so the literal is a truth value and the name is its word
      cases hname
      rw [Cursor.ahead?, List.drop_zero, hrest, List.head?_append_of_ne_nil _ l.starts_text.ne_nil]
        at hstart
      obtain ⟨b, rfl⟩ := Literal.eq_bool_of_starts hstart
      have hword : ∀ ch ∈ Text.ofBool b, isNameChar ch := by cases b <;> decide
      dsimp only
      rw [hrest, Literal.text, Text.takeWhile_append_of_stops hword hv, hclear b]
    · cases hname

end EventRules
