/-
# Crossings

A cursor crosses a text to another cursor when the text lies between the two. Words, marks and space
are described by what is crossed, without saying how they are found, and each token is read exactly
where it can be crossed.

Space need not be crossed as a whole: more space may follow. But a parser that starts with something
else than space succeeds only behind all of it, so skipping the space finds the one place from which
such a parser can go on.
-/

import EventRules.Proofs.Alignment

namespace EventRules

namespace Cursor

variable {c d : Cursor} {t word : Text} {m : Char}

/-- The text `t` lies between the cursors. -/
def Crosses (c : Cursor) (t : Text) (d : Cursor) : Prop :=
  c.inSource ∧ t <+: c.rest ∧ d = c.advance t.length

/-- Nothing but space lies between the cursors, if anything. -/
def Blanks (c d : Cursor) : Prop :=
  ∃ s : Text, (∀ ch ∈ s, isSpace ch) ∧ c.Crosses s d

/-- A word lies between the cursors and ends where a name would end. -/
def Word (c : Cursor) (word : Text) (d : Cursor) : Prop :=
  c.Crosses word d ∧ d.rest.Stops isNameChar

/-- A mark lies between the cursors, after space if there is any. -/
def Mark (c : Cursor) (m : Char) (d : Cursor) : Prop :=
  ∃ b, c.Blanks b ∧ b.Crosses [m] d

/-- The text between two cursors lies ahead of the first one, and then what lies ahead of the
second. -/
theorem Crosses.rest_eq (h : c.Crosses t d) : c.rest = t ++ d.rest := by
  obtain ⟨-, ⟨r, hr⟩, rfl⟩ := h
  rw [rest_advance, ← hr, List.drop_left]

theorem Crosses.leads (h : c.Crosses t d) : c.Leads d :=
  h.2.2 ▸ c.leads_advance _

theorem Crosses.inSource (h : c.Crosses t d) : d.inSource :=
  h.2.2 ▸ c.inSource_advance _

/-- Texts that lie one after the other are crossed as one. -/
theorem Crosses.trans {u : Text} {e : Cursor} (h : c.Crosses t d) (h' : d.Crosses u e) :
    c.Crosses (t ++ u) e := by
  refine ⟨h.1, ⟨e.rest, ?_⟩, ?_⟩
  · rw [h.rest_eq, h'.rest_eq, List.append_assoc]
  · rw [h'.2.2, h.2.2, advance_advance, List.length_append]

theorem Blanks.leads (h : c.Blanks d) : c.Leads d := by
  obtain ⟨s, -, hcross⟩ := h
  exact hcross.leads

theorem Mark.leads (h : c.Mark m d) : c.Leads d := by
  obtain ⟨b, hblanks, hcross⟩ := h
  exact hblanks.leads.trans hcross.leads

/-- Behind a mark, less text lies ahead. -/
theorem Mark.length_lt (h : c.Mark m d) : d.rest.length < c.rest.length := by
  obtain ⟨b, hblanks, hcross⟩ := h
  calc d.rest.length < b.rest.length := by simp [hcross.rest_eq]
    _ ≤ c.rest.length := hblanks.leads.length_le

/-- Only a cursor in its source is crossed over nothing. -/
theorem crosses_nil_iff : c.Crosses [] d ↔ c.inSource ∧ d = c := by
  constructor
  · rintro ⟨hc, -, rfl⟩
    exact ⟨hc, advance_zero hc⟩
  · rintro ⟨hc, rfl⟩
    exact ⟨hc, List.nil_prefix, (advance_zero hc).symm⟩

/-- A single mark lies where it is the next character. -/
theorem crosses_mark_iff : c.Crosses [m] d ↔ c.peek = [m] ∧ d = c.advance 1 := by
  constructor
  · intro h
    exact ⟨peek_of_head? (by rw [h.rest_eq]; rfl), h.2.2⟩
  · rintro ⟨hpeek, rfl⟩
    obtain ⟨r, hr⟩ := List.head?_eq_some_iff.1 (head?_of_peek hpeek)
    exact ⟨inSource_of_rest_ne_nil (by simp [hr]), ⟨r, hr.symm⟩, rfl⟩

/-- A word lies between two cursors if it stands as a keyword at the first. -/
theorem word_iff : c.Word word d ↔ c.atKeyword word ∧ d = c.advance word.length := by
  constructor
  · rintro ⟨h, hend⟩
    exact ⟨atKeyword_of_rest h.1 h.rest_eq hend, h.2.2⟩
  · rintro ⟨hat, rfl⟩
    rw [atKeyword, startsWith, Bool.and_eq_true, Bool.and_eq_true,
      List.isPrefixOf_iff_prefix] at hat
    obtain ⟨⟨hstarts, hin⟩, hend⟩ := hat
    refine ⟨⟨?_, hstarts, rfl⟩, fun ch hch => ?_⟩
    · by_cases hword : word = []
      · simpa [hword] using hin
      · exact inSource_of_rest_ne_nil fun hnil => hword (List.prefix_nil.1 (hnil ▸ hstarts))
    · rw [ahead?] at hend
      rw [rest_advance] at hch
      simpa [Option.mem_def.1 hch] using hend

theorem Blanks.refl (h : c.inSource) : c.Blanks c :=
  ⟨[], List.forall_mem_nil _, h, List.nil_prefix, (advance_zero h).symm⟩

theorem blanks_skipSpace (h : c.inSource) : c.Blanks c.skipSpace :=
  ⟨c.rest.takeWhile isSpace, fun _ hch => List.mem_takeWhile_imp hch, h,
    List.takeWhile_prefix _, rfl⟩

/-- Space that something else follows is all the space there is. -/
theorem Blanks.skipSpace_eq (h : c.Blanks d) (hd : d.rest.Stops isSpace) : c.skipSpace = d := by
  obtain ⟨s, hs, hcross⟩ := h
  rw [skipSpace_of_rest hcross.rest_eq hs hd, hcross.2.2]

/-- A mark comes next after the space. -/
theorem mark_iff (hm : isSpace m = false) :
    c.Mark m d ↔ c.skipSpace.peek = [m] ∧ d = c.skipSpace.advance 1 := by
  constructor
  · rintro ⟨b, hblanks, hcross⟩
    rw [hblanks.skipSpace_eq (by rw [hcross.rest_eq]; exact Text.stops_cons.2 hm)]
    exact crosses_mark_iff.1 hcross
  · rintro ⟨hpeek, rfl⟩
    have hc : c.inSource := by
      refine inSource_of_rest_ne_nil fun hnil => ?_
      simp [peek, hnil] at hpeek
    exact ⟨c.skipSpace, blanks_skipSpace hc, crosses_mark_iff.2 ⟨hpeek, rfl⟩⟩

/-- Behind a mark and the space around it, less of the source remains. -/
theorem remaining_lt_of_peek (h : c.skipSpace.peek ≠ []) :
    (c.skipSpace.advance 1).skipSpace.remaining < c.remaining := by
  have hne : c.skipSpace.rest ≠ [] := fun hnil => h (by rw [peek, hnil]; rfl)
  have hlt : (c.skipSpace.advance 1).rest.length < c.skipSpace.rest.length := by
    rw [rest_advance, List.length_drop]
    exact Nat.sub_lt (List.length_pos_of_ne_nil hne) Nat.one_pos
  calc (c.skipSpace.advance 1).skipSpace.remaining
      ≤ (c.skipSpace.advance 1).remaining := (leads_skipSpace _).remaining_le
    _ < c.skipSpace.remaining := (c.skipSpace.leads_advance 1).remaining_lt hlt
    _ ≤ c.remaining := c.leads_skipSpace.remaining_le

end Cursor

namespace Parser

variable {α β : Type} {p : Parser α} {isMember : Char → Bool} {c d : Cursor}

/-! ### How parsers start -/

/-- All that the parser reads starts with a character of the class. -/
def Opens (p : Parser α) (isMember : Char → Bool) : Prop :=
  ∀ ⦃c : Cursor⦄ ⦃r : α × Cursor⦄, p.outcome c = .ok r → c.rest.Starts isMember

namespace Opens

theorem mono {isOther : Char → Bool} (h : p.Opens isMember)
    (hother : ∀ ch, isMember ch → isOther ch) : p.Opens isOther := by
  intro c r hok
  obtain ⟨ch, hch, hmember⟩ := (Option.any_eq_true _ _).1 (h hok)
  exact (Option.any_eq_true _ _).2 ⟨ch, hch, hother ch hmember⟩

theorem bind {f : α → Parser β} (h : p.Opens isMember) : (p >>= f).Opens isMember := by
  intro c r hok
  rw [outcome_bind] at hok
  obtain ⟨s, hfirst, -⟩ := bind_eq_ok.1 hok
  exact h hfirst

/-- What is read where the cursor is noted starts alike. -/
theorem here_bind {f : Cursor → Parser β} (h : ∀ c, (f c).Opens isMember) :
    (here >>= f).Opens isMember :=
  fun c _ hok => h c hok

/-- Behind space, a parser that starts with something else has one place to succeed. -/
theorem outcome_skipSpace_eq_ok_iff (h : p.Opens fun ch => !isSpace ch) {r : α × Cursor} :
    p.outcome c.skipSpace = .ok r ↔ ∃ b, c.Blanks b ∧ p.outcome b = .ok r := by
  constructor
  · intro hok
    have hc : c.inSource := by
      refine Cursor.inSource_of_rest_ne_nil fun hnil => (h hok).ne_nil ?_
      rw [Cursor.rest_skipSpace, hnil, List.dropWhile_nil]
    exact ⟨c.skipSpace, Cursor.blanks_skipSpace hc, hok⟩
  · rintro ⟨b, hblanks, hok⟩
    rwa [hblanks.skipSpace_eq ((h hok).stops (by simp))]

end Opens

theorem keyword_opens {word : Text} (hword : word.Starts isMember) :
    (keyword word).Opens isMember := by
  intro c r hok
  rw [outcome_keyword] at hok
  split at hok
  · next hat =>
    rw [(Cursor.word_iff.2 ⟨hat, rfl⟩).1.rest_eq]
    exact hword.append _
  · cases hok

theorem symbol_opens {m : Char} (hm : isMember m) : (symbol [m]).Opens isMember := by
  intro c r hok
  rw [(Cursor.crosses_mark_iff.2 (symbol_eq_ok hok)).rest_eq]
  exact Text.starts_cons.2 hm

theorem run1_opens {k : CharClass} (hk : ∀ ch, k.contains ch → isMember ch) :
    (run1 k).Opens isMember := by
  intro c r hok
  rw [outcome_run1] at hok
  split at hok
  · cases hok
  · next hne =>
    cases hrest : c.rest with
    | nil => simp [hrest] at hne
    | cons ch t =>
      refine Text.starts_cons.2 (hk ch ?_)
      by_contra hno
      simp [hrest, hno] at hne

/-- A name starts with a letter or an underscore. -/
theorem name_opens (h : ∀ ch, isNameStart ch → isMember ch) : name.Opens isMember := by
  intro c r hok
  rw [outcome_name] at hok
  split at hok
  · next hstart =>
    obtain ⟨ch, hch, hmember⟩ := (Option.any_eq_true _ _).1 hstart
    exact (Option.any_eq_true _ _).2 ⟨ch, hch, h ch hmember⟩
  · cases hok

/-! ### Tokens -/

/-- What a sequence reads is read in two steps. -/
theorem bind_outcome_eq_ok_iff {f : α → Parser β} {r : β × Cursor} :
    (p >>= f).outcome c = .ok r ↔ ∃ a d, p.outcome c = .ok (a, d) ∧ (f a).outcome d = .ok r := by
  rw [outcome_bind, bind_eq_ok, Prod.exists]

theorem committed_eq_ok_iff {r : α × Cursor} :
    (committed p).outcome c = .ok r ↔ p.outcome c = .ok r := by
  rw [outcome_committed, mapError_eq_ok]

/-- A keyword is read exactly where it stands as a word. -/
theorem keyword_eq_ok_iff {word : Text} {x : Unit} :
    (keyword word).outcome c = .ok (x, d) ↔ c.Word word d := by
  rw [outcome_keyword, Cursor.word_iff]
  split
  · next hat => simp [hat, eq_comm]
  · next hat => simp [hat]

theorem symbol_eq_ok_iff {m : Char} {x : Unit} :
    (symbol [m]).outcome c = .ok (x, d) ↔ c.Crosses [m] d := by
  rw [Cursor.crosses_mark_iff, outcome_symbol]
  split
  · next hpeek => simp [hpeek, eq_comm]
  · next hpeek => simp [hpeek]

/-- A mark is read exactly where it comes next. -/
theorem nextSymbol_eq_ok_iff {m : Char} (hm : isSpace m = false) {x : Unit} :
    (nextSymbol [m]).outcome c = .ok (x, d) ↔ c.Mark m d := by
  rw [nextSymbol, outcome_bind, outcome_skipSpace, ok_bind, symbol_eq_ok_iff, Cursor.mark_iff hm,
    Cursor.crosses_mark_iff]

/-- A mark that closes something. -/
theorem closing_eq_ok_iff {m : Char} (hm : isSpace m = false) {a b : α} :
    (do nextSymbol [m]; return a : Parser α).outcome c = .ok (b, d) ↔ c.Mark m d ∧ b = a := by
  rw [bind_outcome_eq_ok_iff]
  constructor
  · rintro ⟨_, _, hmark, heq⟩
    cases heq
    exact ⟨(nextSymbol_eq_ok_iff hm).1 hmark, rfl⟩
  · rintro ⟨hmark, rfl⟩
    exact ⟨(), d, (nextSymbol_eq_ok_iff hm).2 hmark, rfl⟩

/-- A mark, space, and then a parser that starts with something else. -/
theorem opening_eq_ok_iff {m : Char} (hm : isSpace m = false)
    (hp : p.Opens fun ch => !isSpace ch) {f : α → Parser β} {r : β × Cursor} :
    (do nextSymbol [m]; skipSpace; f (← p) : Parser β).outcome c = .ok r ↔
      ∃ c₁ c₂ a c₃, c.Mark m c₁ ∧ c₁.Blanks c₂ ∧ p.outcome c₂ = .ok (a, c₃) ∧
        (f a).outcome c₃ = .ok r := by
  rw [bind_outcome_eq_ok_iff]
  constructor
  · rintro ⟨_, c₁, hmark, h⟩
    rw [outcome_bind, outcome_skipSpace, ok_bind, hp.bind.outcome_skipSpace_eq_ok_iff] at h
    obtain ⟨c₂, hspace, h⟩ := h
    obtain ⟨a, c₃, ha, h⟩ := bind_outcome_eq_ok_iff.1 h
    exact ⟨c₁, c₂, a, c₃, (nextSymbol_eq_ok_iff hm).1 hmark, hspace, ha, h⟩
  · rintro ⟨c₁, c₂, a, c₃, hmark, hspace, ha, h⟩
    refine ⟨(), c₁, (nextSymbol_eq_ok_iff hm).2 hmark, ?_⟩
    rw [outcome_bind, outcome_skipSpace, ok_bind, hp.bind.outcome_skipSpace_eq_ok_iff]
    exact ⟨c₂, hspace, bind_outcome_eq_ok_iff.2 ⟨a, c₃, ha, h⟩⟩

/-- A terminator is read exactly where a semicolon comes next. -/
theorem terminator_eq_ok_iff {x : Unit} :
    terminator.outcome c = .ok (x, d) ↔ c.Mark ';' d := by
  rw [Cursor.mark_iff (by decide), outcome_terminator]
  change (if c.skipSpace.peek = [';'] then _ else _) = _ ↔ _
  split
  · next hpeek => simp [hpeek, eq_comm]
  · next hpeek => simp [hpeek]

/-- Space, and then a parser that starts with something else. -/
theorem space_bind_eq_ok_iff (h : p.Opens fun ch => !isSpace ch) {r : α × Cursor} :
    (space >>= fun _ => p).outcome c = .ok r ↔
      ∃ b, c.Blanks b ∧ b ≠ c ∧ p.outcome b = .ok r := by
  rw [outcome_bind, outcome_space]
  split
  · next hempty =>
    refine iff_of_false (fun h => by cases h) ?_
    rintro ⟨b, hblanks, hne, hok⟩
    have hskip := hblanks.skipSpace_eq ((h hok).stops (by simp))
    rw [Cursor.skipSpace, hempty, List.length_nil] at hskip
    obtain ⟨s, -, hcross⟩ := hblanks
    exact hne (hskip ▸ Cursor.advance_zero hcross.1)
  · next hspace =>
    rw [ok_bind, h.outcome_skipSpace_eq_ok_iff]
    refine exists_congr fun b => and_congr_right fun hblanks => ?_
    refine ⟨fun hok => ⟨?_, hok⟩, And.right⟩
    -- behind the space the parser succeeds, and before it the text starts with space
    rintro rfl
    exact hspace (Text.takeWhile_append_of_stops (t := []) (List.forall_mem_nil _)
      ((h hok).stops (by simp)))

end Parser

end EventRules
