/-
# A name replaced by a literal

Two sources differ in one place. In the first one a name stands there, in the second one a spelling
of a literal, and what stands around is the same. The name does not run into a word before it or
behind it. Positions before and behind the place correspond, and tokens that do not run over the
place are read alike at corresponding positions.
-/

import EventRules.Proofs.OperandPlace

namespace EventRules

/-- A source with a name in it, and a literal whose text takes the place of the name. -/
structure Replacement where
  name : Text
  before : Text
  old : Text
  after : Text
  literal : Literal
  old_isName : old.IsName
  fits : literal.Fits Width.size
  parted : ∀ ch ∈ before.getLast?, isWordChar ch = false
  stops : after.Stops isNameChar

/-! ### How names and literals start and end -/

/-- The text starts like an operand: with a character of a word, a double quote or a hash. -/
abbrev Text.StartsOperand (t : Text) : Prop :=
  t.Starts fun ch => isWordChar ch || ch = '"' || ch = '#'

theorem Text.IsName.startsOperand {t : Text} (h : t.IsName) : t.StartsOperand := by
  obtain ⟨ch, t, rfl⟩ := List.exists_cons_of_ne_nil h.1.ne_nil
  refine starts_cons.2 ?_
  rw [isWordChar_of_isNameChar (h.2 ch (List.mem_cons_self ..))]
  rfl

namespace Literal.Spelling

variable {l : Literal} {u : Text}

/-- A literal starts like an operand. -/
theorem startsOperand (h : l.Spelling u) : u.StartsOperand := by
  cases h with
  | bool b => cases b <;> exact Text.starts_cons.2 (by decide)
  | int hdigits =>
    have hstart := (LiteralForm.digits_of_number? hdigits).1
    obtain ⟨ch, digits, rfl⟩ := List.exists_cons_of_ne_nil hstart.ne_nil
    refine Text.starts_cons.2 ?_
    rw [isWordChar_of_isNameChar (isNameChar_of_isDigit (Text.starts_cons.1 hstart))]
    rfl
  | string | colour => exact Text.starts_cons.2 (by decide)

end Literal.Spelling

namespace Text.StartsOperand

variable {t : Text}

theorem stops_isSpace (h : t.StartsOperand) : t.Stops isSpace := by
  refine h.stops fun ch hch => ?_
  simp only [Bool.or_eq_true, decide_eq_true_eq] at hch
  rcases hch with (hword | rfl) | rfl
  · by_contra hspace
    rw [not_isWordChar_of_isSpace (by simpa using hspace)] at hword
    cases hword
  · decide
  · decide

/-- An operand does not start with punctuation. -/
theorem head?_ne (h : t.StartsOperand) {mark : Char} (hmark : IsPunctuation mark) :
    t.head? ≠ some mark := by
  intro hhead
  obtain ⟨ch, hch, hstart⟩ := (Option.any_eq_true _ _).1 h
  obtain rfl := Option.some.inj (hch.symm.trans hhead)
  obtain ⟨-, hword, hquote, hhash⟩ := hmark
  simp [hword, hquote, hhash] at hstart

end Text.StartsOperand

namespace Replacement

variable (S : Replacement)

/-- What takes the place of the name. -/
def new : Text :=
  S.literal.text

/-- The source with the name. -/
def left : Source :=
  .around S.name S.before S.old S.after

/-- The source with the literal. -/
def right : Source :=
  .around S.name S.before S.new S.after

/-- The place of the name. -/
def spot : Cursor :=
  S.left.cursor S.before.length

/-- The same position in both sources, before the place or behind it. -/
inductive Rel : Cursor → Cursor → Prop
  | before {n : Nat} (hn : n ≤ S.before.length) : Rel (S.left.cursor n) (S.right.cursor n)
  | after {n : Nat} (hn : n ≤ S.after.length) :
    Rel (S.left.cursor (S.before.length + S.old.length + n))
      (S.right.cursor (S.before.length + S.new.length + n))

/-- The span runs over the place. -/
def Spans (c c' : Cursor) : Prop :=
  c.offset ≤ S.before.length ∧ S.before.length < c'.offset

theorem spelling : S.literal.Spelling S.new :=
  Literal.spelling_text S.fits

theorem length_old_pos : 0 < S.old.length :=
  List.length_pos_of_ne_nil S.old_isName.1.ne_nil

theorem length_new_pos : 0 < S.new.length :=
  List.length_pos_of_ne_nil S.spelling.ne_nil

theorem length_left : S.left.text.length = S.before.length + S.old.length + S.after.length :=
  Source.length_around ..

theorem length_right : S.right.text.length = S.before.length + S.new.length + S.after.length :=
  Source.length_around ..

theorem rest_left {n : Nat} (hn : n ≤ S.before.length) :
    (S.left.cursor n).rest = S.before.drop n ++ (S.old ++ S.after) :=
  Source.rest_around_before _ _ _ _ hn

theorem rest_right {n : Nat} (hn : n ≤ S.before.length) :
    (S.right.cursor n).rest = S.before.drop n ++ (S.new ++ S.after) :=
  Source.rest_around_before _ _ _ _ hn

theorem drop_ne_nil {n : Nat} (hn : n < S.before.length) : S.before.drop n ≠ [] := by
  rw [Ne, List.drop_eq_nil_iff]
  omega

theorem startsOperand_spot : S.spot.rest.StartsOperand := by
  rw [spot, S.rest_left (Nat.le_refl _), List.drop_length]
  exact S.old_isName.startsOperand.append _

theorem startsOperand_right : (S.right.cursor S.before.length).rest.StartsOperand := by
  rw [S.rest_right (Nat.le_refl _), List.drop_length]
  exact S.spelling.startsOperand.append _

/-- Before the place, space ends at the place at the latest, in the first source. -/
theorem takeWhile_left {n : Nat} (hn : n ≤ S.before.length) :
    (S.left.cursor n).rest.takeWhile isSpace = (S.before.drop n).takeWhile isSpace := by
  rw [S.rest_left hn]
  exact Text.takeWhile_append_eq_left
    (Text.StartsOperand.stops_isSpace (S.old_isName.startsOperand.append _))

/-- Before the place, space ends at the place at the latest, in the second source. -/
theorem takeWhile_right {n : Nat} (hn : n ≤ S.before.length) :
    (S.right.cursor n).rest.takeWhile isSpace = (S.before.drop n).takeWhile isSpace := by
  rw [S.rest_right hn]
  exact Text.takeWhile_append_eq_left
    (Text.StartsOperand.stops_isSpace (S.spelling.startsOperand.append _))

theorem previous?_spot : S.spot.previous? = S.before.getLast? := by
  have hlength := S.length_left
  rw [spot, Source.previous?_cursor _ (by omega)]
  exact congrArg List.getLast? List.take_left

namespace Rel

variable {S} {c c' d d' : Cursor} {t : Text}

theorem inSource_left (h : S.Rel c d) : c.inSource := by
  have hlength := S.length_left
  rw [Cursor.inSource_iff]
  cases h with
  | @before n hn =>
    change n ≤ S.left.text.length
    omega
  | @after n hn =>
    change S.before.length + S.old.length + n ≤ S.left.text.length
    omega

theorem source_left (h : S.Rel c d) : c.source = S.left := by
  cases h <;> rfl

theorem inSource_right (h : S.Rel c d) : d.inSource := by
  have hlength := S.length_right
  rw [Cursor.inSource_iff]
  cases h with
  | @before n hn =>
    change n ≤ S.right.text.length
    omega
  | @after n hn =>
    change S.before.length + S.new.length + n ≤ S.right.text.length
    omega

/-- Behind the place the same text lies ahead. -/
theorem rest_after {n : Nat} :
    (S.left.cursor (S.before.length + S.old.length + n)).rest =
      (S.right.cursor (S.before.length + S.new.length + n)).rest := by
  rw [left, right, Source.rest_around_after, Source.rest_around_after]

/-- Behind the place the same text lies ahead. -/
theorem rest_eq (h : S.Rel c d) (hc : S.before.length < c.offset) : d.rest = c.rest := by
  cases h with
  | @before n hn => exact absurd hc (Nat.not_lt.2 hn)
  | after => exact rest_after.symm

/-- A position before the place, the place itself, or one with the same text ahead. -/
theorem cases (h : S.Rel c d) :
    (∃ n < S.before.length, c = S.left.cursor n ∧ d = S.right.cursor n) ∨
      (c = S.spot ∧ d = S.right.cursor S.before.length) ∨ c.rest = d.rest := by
  cases h with
  | @before n hn =>
    rcases Nat.lt_or_eq_of_le hn with hlt | rfl
    · exact .inl ⟨n, hlt, rfl, rfl⟩
    · exact .inr (.inl ⟨rfl, rfl⟩)
  | after => exact .inr (.inr rest_after)

/-- The next characters agree, unless the position is the place itself. -/
theorem head?_cases (h : S.Rel c d) :
    c.rest.head? = d.rest.head? ∨ c = S.spot ∧ d = S.right.cursor S.before.length := by
  rcases h.cases with ⟨n, hlt, rfl, rfl⟩ | hspot | heq
  · have hne := S.drop_ne_nil hlt
    rw [S.rest_left hlt.le, S.rest_right hlt.le, List.head?_append_of_ne_nil _ hne,
      List.head?_append_of_ne_nil _ hne]
    exact .inl rfl
  · exact .inr hspot
  · exact .inl (congrArg List.head? heq)

/-- The same marks stand ahead. -/
theorem peek_iff (h : S.Rel c d) {mark : Char} (hmark : IsPunctuation mark) :
    d.peek = [mark] ↔ c.peek = [mark] := by
  have hhead : d.rest.head? = some mark ↔ c.rest.head? = some mark := by
    rcases h.head?_cases with heq | ⟨rfl, rfl⟩
    · rw [heq]
    · exact iff_of_false (S.startsOperand_right.head?_ne hmark)
        (S.startsOperand_spot.head?_ne hmark)
  exact ⟨fun hd => Cursor.peek_of_head? (hhead.1 (Cursor.head?_of_peek hd)),
    fun hc => Cursor.peek_of_head? (hhead.2 (Cursor.head?_of_peek hc))⟩

/-- A text that does not run over the place is crossed at the same position in both sources. -/
theorem crosses (h : S.Rel c d) (hcross : c.Crosses t c') (hspan : ¬ S.Spans c c') :
    ∃ d', d.Crosses t d' ∧ S.Rel c' d' := by
  have hoffset := hcross.offset_eq
  have hright := h.inSource_right
  have hend := Cursor.inSource_iff.1 (hcross.leads.inSource hcross.1)
  rw [hcross.leads.source_eq, h.source_left, S.length_left, hoffset] at hend
  have hleft := S.length_left
  have hlength := S.length_right
  cases h with
  | @before n hn =>
    change c'.offset = n + t.length at hoffset
    have hle : n + t.length ≤ S.before.length := by
      by_contra hlt
      exact hspan ⟨hn, by omega⟩
    have hstarts : t <+: S.before.drop n := by
      have hrest := hcross.2.1
      rw [S.rest_left hn] at hrest
      refine List.prefix_of_prefix_length_le hrest (List.prefix_append _ _) ?_
      rw [List.length_drop]
      omega
    refine ⟨S.right.cursor (n + t.length), ⟨hright, ?_, ?_⟩, ?_⟩
    · rw [S.rest_right hn]
      exact hstarts.trans (List.prefix_append _ _)
    · rw [Source.advance_cursor _ (by omega)]
    · rw [hcross.2.2, Source.advance_cursor _ (by omega)]
      exact .before hle
  | @after n hn =>
    change S.before.length + S.old.length + n + t.length ≤ _ at hend
    refine ⟨S.right.cursor (S.before.length + S.new.length + (n + t.length)),
      ⟨hright, ?_, ?_⟩, ?_⟩
    · rw [← rest_after]
      exact hcross.2.1
    · rw [Source.advance_cursor _ (by omega), Nat.add_assoc _ n]
    · rw [hcross.2.2, Source.advance_cursor _ (by omega), Nat.add_assoc _ n]
      exact .after (by omega)

/-- What stops behind a text in the one source stops there in the other, if it is about space only
or the text ends like a word. -/
theorem stops (h : S.Rel c' d') {goesOn : Char → Bool} (hcross : c.Crosses t c')
    (hstops : c'.rest.Stops goesOn)
    (hend : (∀ ch, isSpace ch = false → goesOn ch = false) ∨ t.EndsWord) :
    d'.rest.Stops goesOn := by
  rcases h.head?_cases with heq | ⟨rfl, rfl⟩
  · intro ch hch
    exact hstops ch (heq ▸ hch)
  · rcases hend with hspace | ⟨last, hlast, hword⟩
    · intro ch hch
      exact hspace ch (S.startsOperand_right.stops_isSpace ch hch)
    · have hne : t ≠ [] := by
        rintro rfl
        cases hlast
      have hprevious := Cursor.previous?_advance hne hcross.rest_eq
      rw [← hcross.2.2, hlast, S.previous?_spot] at hprevious
      rw [S.parted last hprevious] at hword
      cases hword

/-- A token that does not run over the place is read in both sources. -/
theorem token {α : Type} {p : Parser α} {a : α} (h : S.Rel c d) (hp : p.Local)
    (hok : p.outcome c = .ok (a, c')) (hspan : ¬ S.Spans c c') :
    ∃ d', p.outcome d = .ok (a, d') ∧ S.Rel c' d' := by
  obtain ⟨t, goesOn, hcross, hstops, hend, hread⟩ := hp h.inSource_left hok
  obtain ⟨d', hcross', h'⟩ := h.crosses hcross hspan
  exact ⟨d', hread hcross' (h'.stops hcross hstops hend), h'⟩

/-- The same space lies ahead. -/
theorem takeWhile_isSpace (h : S.Rel c d) :
    d.rest.takeWhile isSpace = c.rest.takeWhile isSpace := by
  cases h with
  | before hn => rw [S.takeWhile_left hn, S.takeWhile_right hn]
  | after => rw [rest_after]

/-- Space never runs over the place, where an operand starts. -/
theorem not_spans_skipSpace (h : S.Rel c d) : ¬ S.Spans c c.skipSpace := by
  rintro ⟨hstart, hend⟩
  rw [(Cursor.crosses_skipSpace h.inSource_left).offset_eq] at hend
  cases h with
  | @before n hn =>
    have hle := (List.takeWhile_prefix isSpace (l := S.before.drop n)).length_le
    rw [List.length_drop] at hle
    rw [S.takeWhile_left hn] at hend
    change S.before.length < n + _ at hend
    omega
  | @after n hn =>
    have hpos := S.length_old_pos
    change S.before.length + S.old.length + n ≤ S.before.length at hstart
    omega

/-- Skipping space keeps to the same position in both sources. -/
theorem skipSpace (h : S.Rel c d) : S.Rel c.skipSpace d.skipSpace := by
  obtain ⟨d', hok, h'⟩ :=
    h.token Parser.skipSpace_local (Parser.outcome_skipSpace c) h.not_spans_skipSpace
  rw [Parser.outcome_skipSpace] at hok
  cases hok
  exact h'

/-- No mark stands at the place. -/
theorem advance_mark (h : S.Rel c d) {mark : Char} (hmark : IsPunctuation mark)
    (hpeek : c.peek = [mark]) : S.Rel (c.advance 1) (d.advance 1) := by
  have hcross : c.Crosses [mark] (c.advance 1) := Cursor.crosses_mark_iff.2 ⟨hpeek, rfl⟩
  have hspan : ¬ S.Spans c (c.advance 1) := by
    rintro ⟨hstart, hend⟩
    rw [hcross.offset_eq, List.length_singleton] at hend
    have hspot : c = S.spot :=
      Cursor.ext_offset h.source_left (Nat.le_antisymm hstart (Nat.lt_succ_iff.1 hend))
    rw [hspot] at hpeek
    exact S.startsOperand_spot.head?_ne hmark (Cursor.head?_of_peek hpeek)
  obtain ⟨d', hcross', h'⟩ := h.crosses hcross hspan
  rwa [hcross'.2.2] at h'

/-- A closing brace stands behind both positions or behind neither. -/
theorem previous?_brace (h : S.Rel c d) :
    d.previous? = some '}' ↔ c.previous? = some '}' := by
  have hleft := S.length_left
  have hright := S.length_right
  cases h with
  | @before n hn =>
    rw [Source.previous?_cursor _ (by omega), Source.previous?_cursor _ (by omega), left, right,
      Source.around, Source.around, List.take_append_of_le_length hn,
      List.take_append_of_le_length hn]
  | @after n hn =>
    rw [Source.previous?_cursor _ (by omega), Source.previous?_cursor _ (by omega), left, right,
      Source.take_around_after, Source.take_around_after]
    by_cases hempty : S.after.take n = []
    · rw [hempty, List.append_nil, List.append_nil,
        List.getLast?_append_of_ne_nil _ S.spelling.ne_nil,
        List.getLast?_append_of_ne_nil _ S.old_isName.1.ne_nil]
      exact iff_of_false S.spelling.getLast?_ne S.old_isName.endsWord.getLast?_ne
    · rw [← List.append_assoc, ← List.append_assoc, List.getLast?_append_of_ne_nil _ hempty,
        List.getLast?_append_of_ne_nil _ hempty]

/-- What is an advance in the one source is an advance in the other. -/
theorem remaining_lt_iff (h : S.Rel c d) (h' : S.Rel c' d') :
    d'.remaining < d.remaining ↔ c'.remaining < c.remaining := by
  have hold := S.length_old_pos
  have hnew := S.length_new_pos
  have hleft := S.length_left
  have hright := S.length_right
  -- neither the name nor the literal is empty, so the way over the place is an advance in both
  cases h <;> cases h' <;>
    rw [Source.remaining_cursor _ (by omega), Source.remaining_cursor _ (by omega),
      Source.remaining_cursor _ (by omega), Source.remaining_cursor _ (by omega)] <;> omega

/-- To the place of the name corresponds that of the literal. -/
theorem eq_of_spot (h : S.Rel S.spot d) : d = S.right.cursor S.before.length := by
  have hold := S.length_old_pos
  generalize hc : S.spot = c at h
  have hoffset : S.before.length = c.offset := congrArg Cursor.offset hc
  cases h with
  | @before n hn =>
    obtain rfl : S.before.length = n := hoffset
    rfl
  | @after n hn =>
    change S.before.length = S.before.length + S.old.length + n at hoffset
    omega

/-! ### Heads -/

/-- A keyword that is no truth value stands ahead in the second source only if it does in the
first. -/
theorem atKeyword (h : S.Rel c d) {word : Text} (hword : word.IsName)
    (hbool : ∀ b, word ≠ Text.ofBool b) (hat : d.atKeyword word) : c.atKeyword word := by
  rw [Cursor.atKeyword_iff_takeWhile hword] at hat ⊢
  rcases h.cases with ⟨n, hlt, rfl, rfl⟩ | ⟨rfl, rfl⟩ | heq
  · have hlast : ∀ ch ∈ (S.before.drop n).getLast?, isNameChar ch = false := by
      intro ch hch
      rw [List.getLast?_drop, if_neg (Nat.not_le.2 hlt)] at hch
      exact (Bool.or_eq_false_iff.1 (S.parted ch hch)).1
    rw [S.rest_right hlt.le, Text.takeWhile_append_of_last (S.drop_ne_nil hlt) hlast] at hat
    rw [S.rest_left hlt.le, Text.takeWhile_append_of_last (S.drop_ne_nil hlt) hlast, hat]
  · -- the literal is spelled like a name, so it is a truth value
    rw [S.rest_right (Nat.le_refl _), List.drop_length, List.nil_append] at hat
    have hstart : S.new.Starts isNameStart := by
      have happend := hword.1.append ((S.new ++ S.after).dropWhile isNameChar)
      rw [← hat, List.takeWhile_append_dropWhile] at happend
      obtain ⟨ch, t, hnew⟩ := List.exists_cons_of_ne_nil S.spelling.ne_nil
      rw [hnew] at happend ⊢
      exact Text.starts_cons.2 (Text.starts_cons.1 happend)
    obtain ⟨b, -, hb⟩ := S.spelling.eq_bool_of_starts hstart
    have hname : ∀ ch ∈ Text.ofBool b, isNameChar ch := by cases b <;> decide
    rw [hb, Text.takeWhile_append_of_stops hname S.stops] at hat
    exact absurd hat.symm (hbool b)
  · rw [heq, hat]

/-- The head of an optional part stands ahead in the second source only if it does in the first. -/
theorem head {head : Cursor → Prop} (hhead : Parser.Heading head) (h : S.Rel c d) (hd : head d) :
    head c := by
  induction hhead generalizing c d with
  | keyword hword hbool => exact h.atKeyword hword hbool hd
  | symbol hmark => exact (h.peek_iff hmark).1 hd
  | any _ ih =>
    obtain ⟨i, hi⟩ := hd
    exact ⟨i, ih i h hi⟩
  | next _ ih => exact ih h.skipSpace hd
  | spaced _ ih => exact ⟨h.takeWhile_isSpace ▸ hd.1, ih h.skipSpace hd.2⟩

/-! ### The end of a clause -/

/-- The end of a clause is told alike in both sources. -/
theorem clauseTerminator (h : S.Rel c d)
    (hok : Parser.clauseTerminator.outcome c = .ok ((), c')) :
    ∃ d', Parser.clauseTerminator.outcome d = .ok ((), d') ∧ S.Rel c' d' := by
  have hmark : IsPunctuation ';' := by decide
  have hsemicolon : d.skipSpace.peek = ";" ↔ c.skipSpace.peek = ";" := h.skipSpace.peek_iff hmark
  rw [Parser.outcome_clauseTerminator, Parser.outcome_terminator] at hok ⊢
  rw [if_congr h.previous?_brace rfl rfl]
  split at hok
  · next hbrace =>
    rw [if_pos hbrace]
    split at hok
    · next hpeek =>
      cases hok
      exact ⟨_, if_pos (hsemicolon.2 hpeek), h.skipSpace.advance_mark hmark hpeek⟩
    · next hpeek =>
      cases hok
      exact ⟨_, if_neg (mt hsemicolon.1 hpeek), h⟩
  · next hbrace =>
    rw [if_neg hbrace]
    split at hok
    · next hpeek =>
      cases hok
      exact ⟨_, if_pos (hsemicolon.2 hpeek), h.skipSpace.advance_mark hmark hpeek⟩
    · cases hok

end Rel

/-! ### The operand at the place -/

/-- The name is read at its place, and the positions behind it and behind the literal
correspond. -/
theorem name_spot : ∃ c, Parser.name.outcome S.spot = .ok (S.old, c) ∧
    S.Rel c ((S.right.cursor S.before.length).advance S.new.length) := by
  have hleft := S.length_left
  have hright := S.length_right
  have hrest : S.spot.rest = S.old ++ S.after := by
    rw [spot, S.rest_left (Nat.le_refl _), List.drop_length, List.nil_append]
  have hat : S.spot.atKeyword S.old := by
    rw [Cursor.atKeyword_iff_takeWhile S.old_isName, hrest,
      Text.takeWhile_append_of_stops S.old_isName.2 S.stops]
  refine ⟨_, Parser.name_eq_ok_iff.2 ⟨S.old_isName, hat, rfl⟩, ?_⟩
  rw [spot, Source.advance_cursor _ (by omega), Source.advance_cursor _ (by omega)]
  exact .after (n := 0) (Nat.zero_le _)

/-- At the place the literal is read, as a constant by its name or as itself. -/
theorem literalOrConstant_spot {constants : Table Text Literal} {l : Literal} {c : Cursor}
    (hliteral : constants.get? S.old = some S.literal) (hspares : constants.SparesBooleans)
    (hok : (Parser.literalOrConstant constants).outcome S.spot = .ok (l, c)) :
    ∃ d, (Parser.literalOrConstant constants).outcome (S.right.cursor S.before.length) =
      .ok (l, d) ∧ S.Rel c d := by
  obtain ⟨c', hname, h⟩ := S.name_spot
  rw [Parser.outcome_literalOrConstant, hname] at hok
  dsimp only at hok
  rw [hliteral] at hok
  cases hok
  have hin : (S.right.cursor S.before.length).inSource :=
    Rel.inSource_right (.before (Nat.le_refl _))
  have hrest : (S.right.cursor S.before.length).rest = S.new ++ S.after := by
    rw [S.rest_right (Nat.le_refl _), List.drop_length, List.nil_append]
  obtain ⟨_, hok, rfl⟩ := Parser.literalOrConstant_reads hspares S.fits S.stops hin hrest
  exact ⟨_, hok, h⟩

end Replacement

end EventRules
