/-
# Texts that are read anywhere

A derivation between two cursors depends on the text between them and on what follows only in so far
as a name must not go on there. So it can be carried to every other place where the same text
stands. This holds of words, marks, space and operands, and it passes on to all that the grammar
puts together from them.

Hence a text that a parser accepts as a whole is read by it in every place, as long as no name goes
on behind it.
-/

import EventRules.Proofs.DerivedMatcher
import EventRules.Proofs.Locality

namespace EventRules

namespace Cursor

variable {c d e : Cursor} {t u : Text} {R S : Cursor → Cursor → Prop}

/-- Only one text lies between two cursors. -/
theorem Crosses.text_eq (h : c.Crosses t d) (h' : c.Crosses u d) : u = t :=
  List.append_cancel_right (h'.rest_eq.symm.trans h.rest_eq)

/-- Behind a text that is not empty the cursor stands elsewhere. -/
theorem Crosses.ne (h : c.Crosses t d) (ht : t ≠ []) : d ≠ c := by
  rintro rfl
  exact ht (List.append_left_eq_self.1 h.rest_eq.symm)

/-- Between the ends of a source lies its text. -/
theorem crosses_source (name t : Text) :
    (Source.mk name t).start.Crosses t ((Source.mk name t).cursor t.length) := by
  refine ⟨inSource_start _, List.prefix_refl t, ?_⟩
  rw [Source.start, Source.advance_cursor _ (Nat.le_of_eq (Nat.zero_add _)), Nat.zero_add]

/-- The relation holds between the cursors on account of the text between them: it holds wherever
this text stands and does not go on with a class of characters, which are characters of names. -/
def Portable (R : Cursor → Cursor → Prop) (c d : Cursor) : Prop :=
  ∃ (t : Text) (goesOn : Char → Bool), c.Crosses t d ∧ d.rest.Stops goesOn ∧
    (∀ ch, goesOn ch → isNameChar ch) ∧
    ∀ ⦃c' d' : Cursor⦄, c'.Crosses t d' → d'.rest.Stops goesOn → R c' d'

namespace Portable

theorem mono (h : Portable R c d) (hsub : ∀ c d, R c d → S c d) : Portable S c d := by
  obtain ⟨t, goesOn, hcross, hstops, hclass, hmove⟩ := h
  exact ⟨t, goesOn, hcross, hstops, hclass, fun c' d' hcross' hstops' =>
    hsub c' d' (hmove hcross' hstops')⟩

theorem exists_crosses (h : Portable R c d) : ∃ t, c.Crosses t d := by
  obtain ⟨t, -, hcross, -⟩ := h
  exact ⟨t, hcross⟩

/-- What is portable holds wherever the text stands and no name goes on behind it. -/
theorem of_crosses (h : Portable R c d) (hcross : c.Crosses t d) {c' d' : Cursor}
    (hcross' : c'.Crosses t d') (hstops' : d'.rest.Stops isNameChar) : R c' d' := by
  obtain ⟨u, goesOn, hu, -, hclass, hmove⟩ := h
  obtain rfl := hcross.text_eq hu
  exact hmove hcross' (hstops'.mono hclass)

/-- What is portable holds of its text as a source of its own. -/
theorem source (h : Portable R c d) (hcross : c.Crosses t d) (name : Text) :
    R (Source.mk name t).start ((Source.mk name t).cursor t.length) := by
  refine h.of_crosses hcross (crosses_source name t) ?_
  rw [show ((Source.mk name t).cursor t.length).rest = [] from List.drop_length]
  exact Text.stops_nil _

/-- One thing after the other is portable if both are. -/
theorem comp (h : Portable R c d) (h' : Portable S d e) :
    Portable (fun c e => ∃ d, R c d ∧ S d e) c e := by
  obtain ⟨t, goesOn, hcross, hstops, hclass, hmove⟩ := h
  obtain ⟨u, goesOn', hcross', hstops', hclass', hmove'⟩ := h'
  cases u with
  | nil =>
    -- nothing stands between the two ends, so neither class may follow
    obtain ⟨-, rfl⟩ := crosses_nil_iff.1 hcross'
    refine ⟨t, fun ch => goesOn ch || goesOn' ch, hcross, fun ch hch => ?_, fun ch hch => ?_,
      fun a b hab hb => ?_⟩
    · rw [Bool.or_eq_false_iff]
      exact ⟨hstops ch hch, hstops' ch hch⟩
    · rcases Bool.or_eq_true_iff.1 hch with hch | hch
      · exact hclass ch hch
      · exact hclass' ch hch
    · have hleft : b.rest.Stops goesOn := hb.mono fun ch hch => by simp [hch]
      have hright : b.rest.Stops goesOn' := hb.mono fun ch hch => by simp [hch]
      exact ⟨b, hmove hab hleft, hmove' (crosses_nil_iff.2 ⟨hab.inSource, rfl⟩) hright⟩
  | cons ch u =>
    have hnext : ∀ r : Text, Text.Stops goesOn (ch :: u ++ r) := fun r => by
      rw [hcross'.rest_eq] at hstops
      exact Text.stops_cons.2 (Text.stops_cons.1 hstops)
    refine ⟨t ++ ch :: u, goesOn', hcross.trans hcross', hstops', hclass', fun a b hab hb => ?_⟩
    obtain ⟨hleft, hright⟩ := hab.split
    exact ⟨_, hmove hleft (by rw [hright.rest_eq]; exact hnext _), hmove' hright hb⟩

end Portable

/-! ### Tokens -/

theorem portable_crosses (h : c.Crosses t d) : Portable (Crosses · t ·) c d :=
  ⟨t, fun _ => false, h, fun _ _ => rfl, nofun, fun _ _ hcross _ => hcross⟩

theorem Blanks.portable (h : c.Blanks d) : Portable Blanks c d := by
  obtain ⟨s, hs, hcross⟩ := h
  exact (portable_crosses hcross).mono fun _ _ hcross' => ⟨s, hs, hcross'⟩

/-- Some space lies between the cursors. -/
def Spaced (c d : Cursor) : Prop :=
  c.Blanks d ∧ d ≠ c

/-- Space lies between two cursors that differ. -/
theorem spaced_iff : c.Spaced d ↔
    ∃ s : Text, s ≠ [] ∧ (∀ ch ∈ s, isSpace ch) ∧ c.Crosses s d := by
  constructor
  · rintro ⟨⟨s, hs, hcross⟩, hne⟩
    refine ⟨s, ?_, hs, hcross⟩
    rintro rfl
    exact hne (crosses_nil_iff.1 hcross).2
  · rintro ⟨s, hne, hs, hcross⟩
    exact ⟨⟨s, hs, hcross⟩, hcross.ne hne⟩

theorem Spaced.portable (h : c.Spaced d) : Portable Spaced c d := by
  obtain ⟨s, hne, hs, hcross⟩ := spaced_iff.1 h
  exact (portable_crosses hcross).mono fun _ _ hcross' => spaced_iff.2 ⟨s, hne, hs, hcross'⟩

theorem Mark.portable {m : Char} (h : c.Mark m d) : Portable (Mark · m ·) c d := by
  obtain ⟨b, hblanks, hcross⟩ := h
  exact hblanks.portable.comp (portable_crosses hcross)

theorem Word.portable {word : Text} (h : c.Word word d) : Portable (Word · word ·) c d :=
  ⟨word, isNameChar, h.1, h.2, fun _ => id, fun _ _ hcross hstops => ⟨hcross, hstops⟩⟩

end Cursor

/-! ### Derivations -/

section Derivation

variable {constants : Table Text Literal} {c d : Cursor}

/-- An operand is portable. A name does not go on, and a literal ends by itself. -/
theorem OperandAt.portable {l : Literal} (h : OperandAt constants c l d) :
    Cursor.Portable (OperandAt constants · l ·) c d := by
  obtain ⟨t, goesOn, hcross, hstops, hclass, -, hread⟩ := Parser.exists_text_of_operand h
  exact ⟨t, goesOn, hcross, hstops, hclass, hread⟩

theorem OperandsAt.portable {ls : List Literal} (h : OperandsAt constants c ls d) :
    Cursor.Portable (OperandsAt constants · ls ·) c d := by
  induction h with
  | one hfirst => exact hfirst.portable.mono fun _ _ => .one
  | cons hfirst hcomma hspace _ ih =>
    refine (((hfirst.portable.comp hcomma.portable).comp hspace.portable).comp ih).mono ?_
    rintro c d ⟨_, ⟨_, ⟨_, hfirst, hcomma⟩, hspace⟩, hrest⟩
    exact .cons hfirst hcomma hspace hrest

theorem ArgumentsAt.portable {ls : List Literal} (h : ArgumentsAt constants c ls d) :
    Cursor.Portable (ArgumentsAt constants · ls ·) c d := by
  cases h with
  | none hopen hclose =>
    refine ((Cursor.portable_crosses hopen).comp hclose.portable).mono ?_
    rintro c d ⟨_, hopen, hclose⟩
    exact .none hopen hclose
  | some hopen hspace hoperands hclose =>
    refine ((((Cursor.portable_crosses hopen).comp hspace.portable).comp
      hoperands.portable).comp hclose.portable).mono ?_
    rintro c d ⟨_, ⟨_, ⟨_, hopen, hspace⟩, hoperands⟩, hclose⟩
    exact .some hopen hspace hoperands hclose

/-- A call is portable, since its semicolon ends it. -/
theorem CallAt.portable {ν : Type} [ItemName ν] {i : Item ν} (h : CallAt constants c i d) :
    Cursor.Portable (CallAt constants · i ·) c d := by
  obtain ⟨hname, hspace, harguments, hend, hconvert⟩ := h
  refine (((hname.portable.comp hspace.portable).comp harguments.portable).comp
    hend.portable).mono ?_
  rintro c d ⟨_, ⟨_, ⟨_, hname, hspace⟩, harguments⟩, hend⟩
  exact .call hname hspace harguments hend hconvert

theorem BracedAt.portable {ν : Type} [ItemName ν] {e : Extractor} {i : Item ν}
    (h : BracedAt constants c e i d) : Cursor.Portable (BracedAt constants · e i ·) c d := by
  cases h with
  | alone hspace hitem hclose =>
    refine ((hspace.portable.comp hitem.portable).comp hclose.portable).mono ?_
    rintro c d ⟨_, ⟨_, hspace, hitem⟩, hclose⟩
    exact .alone hspace hitem hclose
  | extraction hspace hextractor hspace' hitem hclose =>
    refine ((((hspace.portable.comp hextractor.portable).comp hspace'.portable).comp
      hitem.portable).comp hclose.portable).mono ?_
    rintro c d ⟨_, ⟨_, ⟨_, ⟨_, hspace, hextractor⟩, hspace'⟩, hitem⟩, hclose⟩
    exact .extraction hspace hextractor hspace' hitem hclose

/-- A matcher is portable: its text is a matcher wherever it stands and no name goes on behind it.
-/
theorem MatcherAt.portable {m : Matcher} (h : MatcherAt constants c m d) :
    Cursor.Portable (MatcherAt constants · m ·) c d := by
  induction h with
  | event hword hspace hne hcode =>
    have hgap : Cursor.Spaced _ _ := ⟨hspace, hne⟩
    refine ((hword.portable.comp hgap.portable).comp hcode.portable).mono ?_
    rintro c d ⟨_, ⟨_, hword, hspace, hne⟩, hcode⟩
    exact .event hword hspace hne hcode
  | producer hword hspace hne haddress =>
    have hgap : Cursor.Spaced _ _ := ⟨hspace, hne⟩
    refine ((hword.portable.comp hgap.portable).comp haddress.portable).mono ?_
    rintro c d ⟨_, ⟨_, hword, hspace, hne⟩, haddress⟩
    exact .producer hword hspace hne haddress
  | tick hword => exact hword.portable.mono fun _ _ => .tick
  | filter hopen hspace hfilter hclose =>
    refine ((Cursor.portable_crosses hopen).comp
      (BracedAt.alone hspace hfilter hclose).portable).mono ?_
    rintro c d ⟨_, hopen, hbraced⟩
    exact .braced hopen hbraced
  | extraction hopen hspace hextractor hspace' hfilter hclose =>
    refine ((Cursor.portable_crosses hopen).comp
      (BracedAt.extraction hspace hextractor hspace' hfilter hclose).portable).mono ?_
    rintro c d ⟨_, hopen, hbraced⟩
    exact .braced hopen hbraced
  | not hword hopen hspace _ hclose ih =>
    refine ((((hword.portable.comp hopen.portable).comp hspace.portable).comp ih).comp
      hclose.portable).mono ?_
    rintro c d ⟨_, ⟨_, ⟨_, ⟨_, hword, hopen⟩, hspace⟩, hinner⟩, hclose⟩
    exact .not hword hopen hspace hinner hclose
  | or hword hopen hspace _ hcomma hspace' _ hclose ihleft ihright =>
    refine (((((((hword.portable.comp hopen.portable).comp hspace.portable).comp ihleft).comp
      hcomma.portable).comp hspace'.portable).comp ihright).comp hclose.portable).mono ?_
    rintro c d ⟨_, ⟨_, ⟨_, ⟨_, ⟨_, ⟨_, ⟨_, hword, hopen⟩, hspace⟩, hleft⟩, hcomma⟩, hspace'⟩,
      hright⟩, hclose⟩
    exact .or hword hopen hspace hleft hcomma hspace' hright hclose
  | and hword hopen hspace _ hcomma hspace' _ hclose ihleft ihright =>
    refine (((((((hword.portable.comp hopen.portable).comp hspace.portable).comp ihleft).comp
      hcomma.portable).comp hspace'.portable).comp ihright).comp hclose.portable).mono ?_
    rintro c d ⟨_, ⟨_, ⟨_, ⟨_, ⟨_, ⟨_, ⟨_, hword, hopen⟩, hspace⟩, hleft⟩, hcomma⟩, hspace'⟩,
      hright⟩, hclose⟩
    exact .and hword hopen hspace hleft hcomma hspace' hright hclose

end Derivation

/-! ### Accepted texts -/

namespace Parser

variable {α : Type} {p : Parser α} {a : α} {t v : Text}

/-- The parser reads the whole text and nothing else: the text is a source of its own, whatever the
name of the source. -/
def Accepts (p : Parser α) (t : Text) (a : α) : Prop :=
  ∀ name : Text, p.outcome (Source.mk name t).start = .ok (a, (Source.mk name t).cursor t.length)

/-- A text that a parser accepts, with what it is read as. -/
structure Accepted (p : Parser α) where
  text : Text
  value : α
  accepts : p.Accepts text value

theorem Accepts.of_eq {u : Text} (h : p.Accepts t a) (htext : t = u) : p.Accepts u a :=
  htext ▸ h

/-- A text that is read before the end of a source is accepted. -/
theorem Reads.accepts (h : p.Reads t [] (· = a)) : p.Accepts t a := by
  intro name
  obtain ⟨_, hok, rfl⟩ := h (Cursor.inSource_start ⟨name, t⟩) (List.append_nil t).symm
  rw [hok, (Cursor.crosses_source name t).2.2]

/-- What the parser reads is portable. -/
def Portable (p : Parser α) : Prop :=
  ∀ ⦃c : Cursor⦄ ⦃a : α⦄ ⦃d : Cursor⦄, p.outcome c = .ok (a, d) →
    Cursor.Portable (fun c d => p.outcome c = .ok (a, d)) c d

/-- It is enough to read the text in one source. -/
theorem Portable.accepts (hp : p.Portable)
    (h : p.outcome (Source.mk [] t).start = .ok (a, (Source.mk [] t).cursor t.length)) :
    p.Accepts t a :=
  (hp h).source (Cursor.crosses_source [] t)

/-- A text that is accepted as a whole is read in every place where no name goes on behind it. -/
theorem Portable.reads (hp : p.Portable) (h : p.Accepts t a) (hv : v.Stops isNameChar) :
    p.Reads t v (· = a) := by
  intro c hc hrest
  have hcross : c.Crosses t (c.advance t.length) := ⟨hc, ⟨v, hrest.symm⟩, rfl⟩
  refine ⟨a, (hp (h [])).of_crosses (Cursor.crosses_source [] t) hcross ?_, rfl⟩
  rwa [Cursor.rest_advance, hrest, List.drop_left]

/-- An accepted text is read wherever no name goes on behind it. -/
theorem Accepted.reads (k : Accepted p) (hp : p.Portable) (hv : v.Stops isNameChar) :
    p.Reads k.text v (· = k.value) :=
  hp.reads k.accepts hv

theorem Accepted.starts {isMember : Char → Bool} (k : Accepted p) (hp : p.Opens isMember) :
    k.text.Starts isMember :=
  hp (k.accepts [])

variable {constants : Table Text Literal}

theorem literalOrConstant_portable : (literalOrConstant constants).Portable :=
  fun _ _ _ h => OperandAt.portable h

theorem operand_portable (p : ParameterType) : (operand constants p).Portable := by
  intro c a d h
  obtain ⟨l, hl, hconvert⟩ := operand_eq_ok_iff.1 h
  exact hl.portable.mono fun _ _ hl => operand_eq_ok_iff.2 ⟨l, hl, hconvert⟩

/-- A state variable is read as a name that has a slot. -/
theorem stateVariable_eq_ok_iff {slots : Table Text Nat} {c d : Cursor} {n : Nat} :
    (stateVariable slots).outcome c = .ok (n, d) ↔
      ∃ x : Text, x.IsName ∧ c.Word x d ∧ slots.get? x = some n := by
  rw [outcome_stateVariable]
  constructor
  · intro hok
    split at hok
    · cases hok
    · next r hname =>
      split at hok
      · next hslot =>
        cases hok
        obtain ⟨hname, hat⟩ := name_eq_ok_iff.1 hname
        exact ⟨r.1, hname, Cursor.word_iff.2 hat, hslot⟩
      · cases hok
  · rintro ⟨x, hx, hword, hslot⟩
    rw [name_eq_ok_iff.2 ⟨hx, Cursor.word_iff.1 hword⟩]
    dsimp only
    rw [hslot]

theorem stateVariable_portable (slots : Table Text Nat) : (stateVariable slots).Portable := by
  intro c n d h
  obtain ⟨x, hx, hword, hslot⟩ := stateVariable_eq_ok_iff.1 h
  exact hword.portable.mono fun _ _ hword => stateVariable_eq_ok_iff.2 ⟨x, hx, hword, hslot⟩

theorem stateVariable_opens (slots : Table Text Nat) :
    (stateVariable slots).Opens fun ch => !isSpace ch := by
  rintro c ⟨n, d⟩ h
  obtain ⟨x, hx, hword, -⟩ := stateVariable_eq_ok_iff.1 h
  have hkeyword : (keyword x).Opens fun ch => !isSpace ch :=
    (keyword_opens hx.1).mono fun ch hch => by simp [not_isSpace_of_isNameStart ch hch]
  exact hkeyword (r := ((), d)) (keyword_eq_ok_iff.2 hword)

/-- A matcher is read exactly where it is derived, if it is nested within the limit. -/
theorem matcher_eq_ok_iff [NestingLimit] {c d : Cursor} {m : Matcher} :
    (matcher constants).outcome c = .ok (m, d) ↔
      MatcherAt constants c m d ∧ m.depth ≤ NestingLimit.levels :=
  ⟨matcherAt_of_matcherIn, fun h => matcherIn_of_matcherAt h.1 h.2⟩

/-- Matchers are portable. -/
theorem matcher_portable [NestingLimit] : (matcher constants).Portable := by
  intro c m d h
  obtain ⟨hm, hdepth⟩ := matcher_eq_ok_iff.1 h
  exact hm.portable.mono fun _ _ hm => matcher_eq_ok_iff.2 ⟨hm, hdepth⟩

end Parser

end EventRules
