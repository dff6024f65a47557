/-
# What parsers yield

A parser yields a property when every value it reads has the property and the cursor only moves
forward in its source. The property passes through every combinator, so that it has to be looked
at only where a value is made.

A parser consumes when it also leaves less text ahead than it found. Repetition relies on this.
-/

import EventRules.Proofs.Outcome

namespace EventRules

namespace Parser

variable {α β : Type} {p : Parser α} {V W : α → Prop}

/-- Every value that the parser reads has the property, and the cursor moves forward. -/
def Yields (p : Parser α) (V : α → Prop) : Prop :=
  ∀ ⦃c : Cursor⦄ ⦃a : α⦄ ⦃c' : Cursor⦄, p.outcome c = .ok (a, c') → c.Leads c' ∧ V a

/-- The parser only moves forward. -/
abbrev Forward (p : Parser α) : Prop :=
  p.Yields fun _ => True

namespace Yields

theorem mono (hp : p.Yields V) (h : ∀ a, V a → W a) : p.Yields W :=
  fun _ _ _ hok => (hp hok).imp id (h _)

protected theorem pure {a : α} (h : V a) : (pure a : Parser α).Yields V := by
  intro c b c' hok
  cases hok
  exact ⟨.refl c, h⟩

/-- A sequence yields what its second part yields at the values of the first. -/
protected theorem bind {f : α → Parser β} {W : β → Prop} (hp : p.Yields V)
    (hf : ∀ a, V a → (f a).Yields W) : (p >>= f).Yields W := by
  intro c b c' hok
  rw [outcome_bind] at hok
  obtain ⟨⟨a, d⟩, hfirst, hsecond⟩ := bind_eq_ok.1 hok
  obtain ⟨hcd, ha⟩ := hp hfirst
  obtain ⟨hdc', hb⟩ := hf a ha hsecond
  exact ⟨hcd.trans hdc', hb⟩

theorem fail (d : Diagnostic) : (Parser.fail d : Parser α).Yields V := by
  intro _ _ _ hok
  cases hok

/-- A check yields what it lets pass. -/
protected theorem ofExcept {x : Except Failure α} (h : ∀ a, x = .ok a → V a) :
    (ofExcept x).Yields V := by
  intro c b c' hok
  rw [outcome_ofExcept] at hok
  obtain ⟨a, hx, heq⟩ := map_eq_ok.1 hok
  cases heq
  exact ⟨.refl _, h _ hx⟩

/-- A demand yields what is there. -/
protected theorem demand (f : Fault) (x : Option α) : (demand f x).Yields (x = some ·) := by
  cases x with
  | none => exact .ofExcept fun _ h => nomatch h
  | some a => exact .pure rfl

protected theorem note (n : Note) : (Parser.note n).Forward := by
  intro c _ _ hok
  cases hok
  exact ⟨.refl c, trivial⟩

protected theorem here : Parser.here.Forward := by
  intro c _ _ hok
  cases hok
  exact ⟨.refl c, trivial⟩

protected theorem committed (hp : p.Yields V) : (Parser.committed p).Yields V := by
  intro c a c' hok
  rw [outcome_committed, mapError_eq_ok] at hok
  exact hp hok

/-- An option yields what its parser yields, if anything. -/
protected theorem optional (hp : p.Yields V) :
    (Parser.optional p).Yields fun r => ∀ a, r = some a → V a := by
  intro c r c' hok
  rw [outcome_optional] at hok
  split at hok
  · next s h =>
    cases hok
    obtain ⟨hlead, ha⟩ := hp h
    exact ⟨hlead, fun b hb => by cases hb; exact ha⟩
  · split at hok
    · cases hok
    · cases hok
      exact ⟨.refl c, fun _ h => by cases h⟩

/-- A choice yields what all its alternatives yield. -/
theorem choice {failures : List Diagnostic} {ps : List (Parser α)} (h : ∀ p ∈ ps, p.Yields V) :
    (Parser.choice failures ps).Yields V := by
  intro c a c' hok
  obtain ⟨p, hp, hok⟩ := exists_of_choice_eq_ok hok
  exact h p hp hok

/-- A choice yields what all its alternatives yield. -/
protected theorem alt {ps : List (Parser α)} (h : ∀ p ∈ ps, p.Yields V) :
    (Parser.alt ps).Yields V :=
  .choice h

/-- A repetition yields elements that all have the property. -/
protected theorem many0 (hp : p.Yields V) : (Parser.many0 p).Yields fun as => ∀ a ∈ as, V a := by
  intro c as c' hok
  induction hn : c.remaining using Nat.strongRecOn generalizing c as with
  | ind n ih =>
    rw [outcome_many0] at hok
    split at hok
    · next r hr =>
      obtain ⟨hlead, ha⟩ := hp hr
      split at hok
      · next hlt =>
        obtain ⟨⟨bs, d⟩, hrest, heq⟩ := bind_eq_ok.1 hok
        cases heq
        obtain ⟨hlead', hbs⟩ := ih _ (hn ▸ hlt) hrest rfl
        refine ⟨hlead.trans hlead', fun b hb => ?_⟩
        rcases List.mem_cons.1 hb with rfl | hb
        · exact ha
        · exact hbs b hb
      · cases hok
        exact ⟨.refl _, fun b hb => nomatch hb⟩
    · split at hok
      · cases hok
      · cases hok
        exact ⟨.refl _, fun b hb => nomatch hb⟩

/-- A repetition of at least one yields an element. -/
protected theorem many1 (hp : p.Yields V) :
    (Parser.many1 p).Yields fun as => as ≠ [] ∧ ∀ a ∈ as, V a :=
  .bind hp fun _ ha => .bind hp.many0 fun _ has =>
    .pure ⟨List.cons_ne_nil _ _, List.forall_mem_cons.2 ⟨ha, has⟩⟩

end Yields

/-! ### Tokens -/

protected theorem run0_yields (k : CharClass) : (run0 k).Forward := by
  intro c a c' hok
  rw [outcome_run0] at hok
  cases hok
  exact ⟨c.leads_advance _, trivial⟩

/-- A run of a class is not empty and has only members of the class. -/
protected theorem run1_yields (k : CharClass) :
    (run1 k).Yields fun t => t ≠ [] ∧ ∀ ch ∈ t, k.contains ch := by
  intro c a c' hok
  rw [outcome_run1] at hok
  split at hok
  · cases hok
  · next h =>
    cases hok
    exact ⟨c.leads_advance _, h, fun ch hch => List.mem_takeWhile_imp hch⟩

protected theorem skipSpace_yields : skipSpace.Forward :=
  .bind (Parser.run0_yields _) fun _ _ => .pure trivial

protected theorem space_yields : space.Forward :=
  .bind (Parser.run1_yields _) fun _ _ => .pure trivial

protected theorem name_yields : name.Forward := by
  intro c a c' hok
  rw [outcome_name] at hok
  split at hok
  · cases hok
    exact ⟨c.leads_advance _, trivial⟩
  · cases hok

protected theorem keyword_yields (word : Text) : (keyword word).Forward := by
  intro c a c' hok
  rw [outcome_keyword] at hok
  split at hok
  · cases hok
    exact ⟨c.leads_advance _, trivial⟩
  · cases hok

protected theorem symbol_yields (mark : Text) : (symbol mark).Forward := by
  intro c a c' hok
  rw [outcome_symbol] at hok
  split at hok
  · cases hok
    exact ⟨c.leads_advance 1, trivial⟩
  · cases hok

protected theorem terminator_yields : terminator.Forward := by
  intro c a c' hok
  rw [outcome_terminator] at hok
  split at hok
  · cases hok
    exact ⟨c.leads_skipSpace.trans (c.skipSpace.leads_advance 1), trivial⟩
  · cases hok

protected theorem nextKeyword_yields (word : Text) : (nextKeyword word).Forward :=
  .bind Parser.space_yields fun _ _ => Parser.keyword_yields word

protected theorem nextSymbol_yields (mark : Text) : (nextSymbol mark).Forward :=
  .bind Parser.skipSpace_yields fun _ _ => Parser.symbol_yields mark

/-- One of the words is chosen. -/
protected theorem keywordChoice_yields (words : List Text) :
    (keywordChoice words).Yields (· ∈ words) := by
  intro c a c' hok
  rw [outcome_keywordChoice] at hok
  split at hok
  · next word hword =>
    cases hok
    exact ⟨c.leads_advance _, List.mem_of_find?_eq_some hword⟩
  · cases hok

/-- The further elements of a list all have the property. -/
protected theorem moreElements_yields (separator : Text) (hp : p.Yields V) :
    (moreElements separator p).Yields fun as => ∀ a ∈ as, V a := by
  intro c as c' hok
  induction hn : c.remaining using Nat.strongRecOn generalizing c as with
  | ind n ih =>
    rw [outcome_moreElements] at hok
    have hlead : c.Leads (c.skipSpace.advance 1).skipSpace :=
      c.leads_skipSpace.trans ((c.skipSpace.leads_advance 1).trans (Cursor.leads_skipSpace _))
    split at hok
    · obtain ⟨⟨a, d⟩, hfirst, hrest⟩ := bind_eq_ok.1 hok
      obtain ⟨hlead', ha⟩ := hp hfirst
      split at hrest
      · next hlt =>
        obtain ⟨⟨bs, e⟩, hmore, heq⟩ := bind_eq_ok.1 hrest
        cases heq
        obtain ⟨hlead'', hbs⟩ := ih _ (hn ▸ hlt) hmore rfl
        refine ⟨hlead.trans (hlead'.trans hlead''), fun b hb => ?_⟩
        rcases List.mem_cons.1 hb with rfl | hb
        · exact ha
        · exact hbs b hb
      · cases hrest
        refine ⟨hlead.trans hlead', fun b hb => ?_⟩
        obtain rfl := List.mem_singleton.1 hb
        exact ha
    · cases hok
      exact ⟨.refl _, fun b hb => nomatch hb⟩

/-- The elements of a list all have the property. -/
protected theorem list_yields (marks : ListMarks) (hp : p.Yields V) :
    (list marks p).Yields fun as => ∀ a ∈ as, V a := by
  refine .bind (Parser.symbol_yields _) fun _ _ => .bind Parser.skipSpace_yields fun _ _ =>
    .bind .here fun c _ => ?_
  have hend : ∀ as : List α, (∀ a ∈ as, V a) →
      (do nextSymbol marks.closing; return as : Parser (List α)).Yields fun as => ∀ a ∈ as, V a :=
    fun as has => .bind (Parser.nextSymbol_yields _) fun _ _ => .pure has
  dsimp only
  split
  · exact .bind (.pure (V := fun as => ∀ a ∈ as, V a) fun _ h => nomatch h) hend
  · refine .bind hp fun a ha => .bind (Parser.moreElements_yields _ hp) fun as has =>
      .bind (.pure (V := fun as => ∀ a ∈ as, V a) fun b hb => ?_) hend
    rcases List.mem_cons.1 hb with rfl | hb
    · exact ha
    · exact has b hb

/-- What is taken up to a mark does not hold it. -/
theorem takeUntil_yields (mark : Char) : (takeUntil [mark]).Yields fun t => mark ∉ t := by
  intro c a c' hok
  obtain ⟨hmark, -, rfl⟩ := takeUntil_eq_ok mark hok
  exact ⟨c.leads_advance _, hmark⟩

/-! ### Consumption -/

/-- The parser leaves less text ahead than it found. -/
def Consumes (p : Parser α) : Prop :=
  ∀ ⦃c : Cursor⦄ ⦃a : α⦄ ⦃c' : Cursor⦄, p.outcome c = .ok (a, c') → c'.rest.length < c.rest.length

/-- The parser yields the property and consumes. -/
structure Takes (p : Parser α) (V : α → Prop) : Prop where
  yields : p.Yields V
  consumes : p.Consumes

namespace Takes

theorem mono (hp : p.Takes V) (h : ∀ a, V a → W a) : p.Takes W :=
  ⟨hp.yields.mono h, hp.consumes⟩

/-- What starts with a parser that consumes, consumes. -/
protected theorem bind {f : α → Parser β} {W : β → Prop} (hp : p.Takes V)
    (hf : ∀ a, V a → (f a).Yields W) : (p >>= f).Takes W := by
  refine ⟨hp.yields.bind hf, fun c b c' hok => ?_⟩
  rw [outcome_bind] at hok
  obtain ⟨⟨a, d⟩, hfirst, hsecond⟩ := bind_eq_ok.1 hok
  have hlead := (hf a (hp.yields hfirst).2 hsecond).1
  exact Nat.lt_of_le_of_lt hlead.length_le (hp.consumes hfirst)

/-- What goes on with a parser that consumes, consumes. -/
theorem after {f : α → Parser β} {W : β → Prop} (hp : p.Yields V)
    (hf : ∀ a, V a → (f a).Takes W) : (p >>= f).Takes W := by
  refine ⟨hp.bind fun a ha => (hf a ha).yields, fun c b c' hok => ?_⟩
  rw [outcome_bind] at hok
  obtain ⟨⟨a, d⟩, hfirst, hsecond⟩ := bind_eq_ok.1 hok
  obtain ⟨hlead, ha⟩ := hp hfirst
  exact Nat.lt_of_lt_of_le ((hf a ha).consumes hsecond) hlead.length_le

protected theorem map {f : α → β} {W : β → Prop} (hp : p.Takes fun a => W (f a)) :
    (f <$> p).Takes W := by
  rw [← bind_pure_comp]
  exact hp.bind fun _ h => .pure h

protected theorem committed (hp : p.Takes V) : (Parser.committed p).Takes V := by
  refine ⟨hp.yields.committed, fun c a c' hok => ?_⟩
  rw [outcome_committed, mapError_eq_ok] at hok
  exact hp.consumes hok

theorem choice {failures : List Diagnostic} {ps : List (Parser α)} (h : ∀ p ∈ ps, p.Takes V) :
    (Parser.choice failures ps).Takes V := by
  refine ⟨.choice fun p hp => (h p hp).yields, fun c a c' hok => ?_⟩
  obtain ⟨p, hp, hok⟩ := exists_of_choice_eq_ok hok
  exact (h p hp).consumes hok

protected theorem alt {ps : List (Parser α)} (h : ∀ p ∈ ps, p.Takes V) : (Parser.alt ps).Takes V :=
  .choice h

/-- A parser that consumes text leaves less of it. -/
theorem remaining_lt (hp : p.Takes V) {c c' : Cursor} {a : α} (h : p.outcome c = .ok (a, c')) :
    c'.remaining < c.remaining :=
  (hp.yields h).1.remaining_lt (hp.consumes h)

/-- A parser that consumes text moves its cursor. -/
theorem offset_lt (hp : p.Takes V) {c c' : Cursor} {a : α} (h : p.outcome c = .ok (a, c')) :
    c.offset < c'.offset := by
  have hlength := hp.consumes h
  rw [c.length_rest, c'.length_rest, (hp.yields h).1.source_eq] at hlength
  omega

end Takes

/-- A keyword consumes its letters. -/
theorem keyword_takes {word : Text} (hword : word ≠ []) : (keyword word).Takes fun _ => True := by
  refine ⟨Parser.keyword_yields word, fun c a c' hok => ?_⟩
  rw [outcome_keyword] at hok
  split at hok
  · next hat =>
    cases hok
    rw [Cursor.atKeyword, Bool.and_eq_true, Cursor.startsWith, Bool.and_eq_true,
      List.isPrefixOf_iff_prefix] at hat
    have hle := hat.1.1.length_le
    have hpos := List.length_pos_of_ne_nil hword
    rw [Cursor.rest_advance, List.length_drop]
    omega
  · cases hok

end Parser

end EventRules
