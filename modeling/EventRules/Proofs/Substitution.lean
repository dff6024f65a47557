/-
# Constants and their literals

A constant stands for its literal: where an operand of a statement was read as the name of a
constant, the text of the literal may be put in the place of the name, and the statement is read as
before, up to the places that it remembers.

The proof follows both texts in parallel, by induction on how a statement is put together. Parts
that do not run over the place are read alike since tokens depend on their own text only. A part
that runs over the place needs the operand there, and of a sequence that needs it, exactly one part
does.
-/

import EventRules.Proofs.Dispatch
import EventRules.Proofs.Replacement

namespace EventRules

namespace Parser.Guarded

variable {α β : Type} {t : Terms} {o : Cursor} {p : Terms → Parser α}

theorem const {p : Parser α} (hp : p.Forward) : Guarded t o fun _ => p :=
  ⟨hp, hp, .refl _, .refl _⟩

theorem bind {f : Terms → α → Parser β} (hp : Guarded t o p) (hf : ∀ a, Guarded t o (f · a)) :
    Guarded t o fun t => p t >>= f t where
  forward := hp.forward.bind fun a _ => (hf a).forward
  forward_except := hp.forward_except.bind fun a _ => (hf a).forward_except
  sound := .bind .all hp.forward_except (fun a => (hf a).forward_except) hp.sound
    (fun a => (hf a).sound) fun _ _ _ _ _ => trivial
  keeps := .bind (Cursor.divides_misses o) hp.forward (fun a => (hf a).forward) hp.keeps
    (fun a => (hf a).keeps) fun _ _ _ _ _ => trivial

theorem moreElements (h : Guarded t o p) :
    Guarded t o fun t => Parser.moreElements "," (p t) := by
  have hcomma : IsPunctuation ',' := by decide
  have hforward {p : Parser α} (hp : p.Forward) : (Parser.moreElements "," p).Forward :=
    (Parser.moreElements_yields "," hp).mono fun _ _ => trivial
  refine ⟨hforward h.forward, hforward h.forward_except, ?_, ?_⟩
  · exact .moreElements hcomma .all .all h.forward_except h.sound
  · exact .moreElements hcomma (Cursor.divides_misses o) .all h.forward h.keeps

end Parser.Guarded

namespace Replacement

open EventRules.Parser

variable (S : Replacement) (t : Terms) {α β γ δ : Type}

/-- If the span runs over the place, then the operand there is needed. -/
def Needed (p : Terms → Parser α) (c c' : Cursor) : Prop :=
  S.Spans c c' → ∀ r, (p (t.exceptAt S.spot)).outcome c ≠ .ok r

/-- What is read in the first source is read in the second one too, up to the view, provided that it
needs the operand at the place if it runs over it. -/
def Follows (view : α → γ) (p q : Terms → Parser α) : Prop :=
  ∀ ⦃c d : Cursor⦄ ⦃a : α⦄ ⦃c' : Cursor⦄, S.Rel c d → (p t).outcome c = .ok (a, c') →
    S.Needed t p c c' →
    ∃ a' d', (q t).outcome d = .ok (a', d') ∧ view a' = view a ∧ S.Rel c' d'

variable {S t} {view : α → γ} {view' : β → δ} {p q : Terms → Parser α}

/-- Of a sequence that needs the operand, the part does that runs over the place. -/
theorem Needed.bind {f : Terms → α → Parser β} {a : α} {b : β} {c c' d e : Cursor}
    (h : S.Needed t (fun t => p t >>= f t) c e) (hp : Guarded t S.spot p)
    (hf : Guarded t S.spot (f · a)) (hrel : S.Rel c d) (hfirst : (p t).outcome c = .ok (a, c'))
    (hsecond : (f t a).outcome c' = .ok (b, e)) :
    S.Needed t p c c' ∧ S.Needed t (f · a) c' e := by
  have hc := hrel.inSource_left
  have hlead := (hp.forward hfirst).1
  have hc' := hlead.inSource hc
  have hle := hlead.offset_le hc
  have hle' := (hf.forward hsecond).1.offset_le hc'
  constructor
  · intro hspan r hr
    -- the second part lies behind the place, so it is read whether or not the operand is
    obtain rfl : r = (a, c') :=
      Except.ok.inj ((hp.sound trivial trivial hr).symm.trans hfirst)
    have hmiss : S.spot.Misses c' e := ⟨hc', fun ⟨_, hstart, _⟩ => Nat.not_lt.2 hstart hspan.2⟩
    refine h ⟨hspan.1, Nat.lt_of_lt_of_le hspan.2 hle'⟩ (b, e) ?_
    rw [outcome_bind]
    exact bind_eq_ok.2 ⟨_, hr, hf.keeps trivial hmiss hsecond⟩
  · intro hspan r hr
    have hmiss : S.spot.Misses c c' := ⟨hc, fun ⟨_, _, hend⟩ => Nat.not_lt.2 hspan.1 hend⟩
    refine h ⟨Nat.le_trans hle hspan.1, hspan.2⟩ r ?_
    rw [outcome_bind]
    exact bind_eq_ok.2 ⟨_, hp.keeps trivial hmiss hfirst, hr⟩

/-- What contains something that needs the operand needs it too. -/
theorem Needed.of_imp {p' : Terms → Parser β} {c c' e : Cursor} (h : S.Needed t p c e)
    (hle : c.offset ≤ c'.offset)
    (himp : ∀ r, (p' (t.exceptAt S.spot)).outcome c' = .ok r →
      ∃ r', (p (t.exceptAt S.spot)).outcome c = .ok r') : S.Needed t p' c' e := by
  intro hspan r hr
  obtain ⟨r', hr'⟩ := himp r hr
  exact h ⟨Nat.le_trans hle hspan.1, hspan.2⟩ r' hr'

/-- A repetition that needs the operand needs it in its first element or in the others. -/
theorem Needed.many0 {a : α} {as : List α} {c c' d e : Cursor}
    (h : S.Needed t (fun t => Parser.many0 (p t)) c e) (hp : Guarded t S.spot p)
    (hmany : Guarded t S.spot fun t => Parser.many0 (p t)) (hrel : S.Rel c d)
    (hfirst : (p t).outcome c = .ok (a, c')) (hlt : c'.remaining < c.remaining)
    (hrest : (Parser.many0 (p t)).outcome c' = .ok (as, e)) :
    S.Needed t p c c' ∧ S.Needed t (fun t => Parser.many0 (p t)) c' e := by
  have hsequence : S.Needed t (fun t => p t >>= fun _ => Parser.many0 (p t)) c e := by
    refine h.of_imp (Nat.le_refl _) fun r hr => ?_
    rw [outcome_bind] at hr
    obtain ⟨s, hs, hmore⟩ := bind_eq_ok.1 hr
    obtain rfl : s = (a, c') := Except.ok.inj ((hp.sound trivial trivial hs).symm.trans hfirst)
    refine ⟨(a :: r.1, r.2), ?_⟩
    rw [outcome_many0, hs]
    dsimp only at hlt ⊢
    rw [if_pos hlt, hmore, ok_bind]
  exact hsequence.bind hp hmany hrel hfirst hrest

/-- The elements of a list that need the operand need it in the first of them or in the others. -/
theorem Needed.moreElements {a : α} {as : List α} {c c' d e : Cursor}
    (h : S.Needed t (fun t => Parser.moreElements "," (p t)) c e) (hp : Guarded t S.spot p)
    (hrel : S.Rel c d) (hpeek : c.skipSpace.peek = ",")
    (hfirst : (p t).outcome (c.skipSpace.advance 1).skipSpace = .ok (a, c'))
    (hlt : c'.remaining < c.remaining)
    (hrest : (Parser.moreElements "," (p t)).outcome c' = .ok (as, e)) :
    S.Needed t p (c.skipSpace.advance 1).skipSpace c' ∧
      S.Needed t (fun t => Parser.moreElements "," (p t)) c' e := by
  have hrel' := (hrel.skipSpace.advance_mark (by decide : IsPunctuation ',') hpeek).skipSpace
  have hlead : c.Leads (c.skipSpace.advance 1).skipSpace :=
    c.leads_skipSpace.trans ((c.skipSpace.leads_advance 1).trans (Cursor.leads_skipSpace _))
  have hsequence : S.Needed t (fun t => p t >>= fun _ => Parser.moreElements "," (p t))
      (c.skipSpace.advance 1).skipSpace e := by
    refine h.of_imp (hlead.offset_le hrel.inSource_left) fun r hr => ?_
    rw [outcome_bind] at hr
    obtain ⟨s, hs, hmore⟩ := bind_eq_ok.1 hr
    obtain rfl : s = (a, c') := Except.ok.inj ((hp.sound trivial trivial hs).symm.trans hfirst)
    refine ⟨(a :: r.1, r.2), ?_⟩
    rw [outcome_moreElements, if_pos hpeek, hs, ok_bind]
    dsimp only at hlt ⊢
    rw [if_pos hlt, hmore, ok_bind]
  exact hsequence.bind hp hp.moreElements hrel' hfirst hrest

namespace Follows

/-- A token never runs over the place, since it does not ask for the operand there. -/
theorem of_local {p : Parser α} (hp : p.Local) : S.Follows t id (fun _ => p) (fun _ => p) := by
  intro c d a c' hrel hok hneeded
  obtain ⟨d', hok', hrel'⟩ := hrel.token hp hok fun hspan => hneeded hspan _ hok
  exact ⟨a, d', hok', rfl, hrel'⟩

/-- Checks follow the replacement if what passes the one passes the other. -/
theorem still {p q : Parser α} {x y : Except Failure α} (hp : p.Still x) (hq : q.Still y)
    (h : ∀ a, x = .ok a → ∃ a', y = .ok a' ∧ view a' = view a) :
    S.Follows t view (fun _ => p) (fun _ => q) := by
  intro c d a c' hrel hok _
  rw [hp] at hok
  obtain ⟨_, hx, heq⟩ := map_eq_ok.1 hok
  cases heq
  obtain ⟨a', rfl, hview⟩ := h a hx
  exact ⟨a', d, hq d, hview, hrel⟩

protected theorem pure {a a' : α} (h : view a' = view a) :
    S.Follows t view (fun _ => pure a) (fun _ => pure a') := by
  intro c d _ c' hrel hok _
  cases hok
  exact ⟨a', d, rfl, h, hrel⟩

theorem token {p : Parser α} (h : Token p) : S.Follows t id (fun _ => p) (fun _ => p) := by
  cases h with
  | keyword hword => exact of_local (keyword_local hword)
  | keywordChoice hwords => exact of_local (keywordChoice_local hwords)
  | name => exact of_local name_local
  | symbol mark => exact of_local (symbol_local mark)
  | skipSpace => exact of_local skipSpace_local
  | space => exact of_local space_local
  | terminator => exact of_local (mark_local fun _ _ _ => terminator_eq_ok_iff)
  | clauseTerminator =>
    intro c d _ c' hrel hok _
    obtain ⟨d', hok', hrel'⟩ := hrel.clauseTerminator hok
    exact ⟨(), d', hok', rfl, hrel'⟩

theorem separator {b : Bool} {p : Parser Unit} (h : Separator b p) :
    S.Follows t id (fun _ => p) (fun _ => p) := by
  cases h with
  | space => exact of_local space_local
  | symbol _ => exact of_local (symbol_local _)
  | nextSymbol hmark => exact of_local (mark_local fun _ _ _ => nextSymbol_eq_ok_iff hmark.1)
  | skipSpace => exact of_local skipSpace_local

/-- An operand that runs over the place is the one that stands there. -/
theorem operand {constants : Table Text Literal} (ht : t.operand = literalOrConstant constants)
    (hliteral : constants.get? S.old = some S.literal) (hspares : constants.SparesBooleans) :
    S.Follows t id Terms.operand Terms.operand := by
  intro c d l c' hrel hok hneeded
  by_cases hspan : S.Spans c c'
  · -- an operand elsewhere would be read without the one at the place
    obtain rfl : c = S.spot := by
      by_contra hne
      refine hneeded hspan (l, c') ?_
      rw [Terms.exceptAt, outcome_exceptAt, if_neg hne, hok]
    obtain rfl := hrel.eq_of_spot
    rw [ht] at hok ⊢
    obtain ⟨d', hok', hrel'⟩ := S.literalOrConstant_spot hliteral hspares hok
    exact ⟨l, d', hok', rfl, hrel'⟩
  · rw [ht] at hok ⊢
    obtain ⟨d', hok', hrel'⟩ := hrel.token (literalOrConstant_local constants) hok hspan
    exact ⟨l, d', hok', rfl, hrel'⟩

/-- A sequence follows the replacement if its parts do. -/
theorem bind {f g : Terms → α → Parser β} (hp : Guarded t S.spot p)
    (hf : ∀ a, Guarded t S.spot (f · a)) (h : S.Follows t view p q)
    (hnext : ∀ a a', view a' = view a → S.Follows t view' (f · a) (g · a')) :
    S.Follows t view' (fun t => p t >>= f t) (fun t => q t >>= g t) := by
  intro c d b e hrel hok hneeded
  rw [outcome_bind] at hok
  obtain ⟨⟨a, c'⟩, hfirst, hsecond⟩ := bind_eq_ok.1 hok
  obtain ⟨hneeded₁, hneeded₂⟩ := hneeded.bind hp (hf a) hrel hfirst hsecond
  obtain ⟨a', d', hfirst', hview, hrel'⟩ := h hrel hfirst hneeded₁
  obtain ⟨b', e', hsecond', hview', hrel''⟩ := hnext a a' hview hrel' hsecond hneeded₂
  refine ⟨b', e', ?_, hview', hrel''⟩
  rw [outcome_bind]
  exact bind_eq_ok.2 ⟨_, hfirst', hsecond'⟩

theorem committed (h : S.Follows t view p q) :
    S.Follows t view (fun t => Parser.committed (p t)) (fun t => Parser.committed (q t)) := by
  intro c d a c' hrel hok hneeded
  rw [outcome_committed, mapError_eq_ok] at hok
  obtain ⟨a', d', hok', hview, hrel'⟩ := h hrel hok fun hspan r hr => hneeded hspan r <| by
    rw [outcome_committed, mapError_eq_ok]
    exact hr
  refine ⟨a', d', ?_, hview, hrel'⟩
  rw [outcome_committed, mapError_eq_ok]
  exact hok'

section Repetition

variable {head : Cursor → Prop} (hhead : Heading head) (hp : ∀ t, (p t).Commits head)
  (hq : ∀ t, (q t).Commits head)

include hhead hp hq

/-- Where the one declines, so does the other. -/
theorem declines {c d : Cursor} (hrel : S.Rel c d) (h : (p t).Declines c) : (q t).Declines d :=
  (hq t d).2 (mt (hrel.head hhead) ((hp t c).1 h))

/-- An option that is left out is left out in the second source too. -/
theorem optional (h : S.Follows t view p q) :
    S.Follows t (Option.map view) (fun t => Parser.optional (p t))
      (fun t => Parser.optional (q t)) := by
  intro c d r c' hrel hok hneeded
  rw [outcome_optional] at hok
  split at hok
  · next s hs =>
    cases hok
    obtain ⟨a', d', hok', hview, hrel'⟩ := h hrel hs fun hspan r hr =>
      hneeded hspan (some r.1, r.2) (by rw [outcome_optional, hr])
    exact ⟨some a', d', by rw [outcome_optional, hok'], congrArg some hview, hrel'⟩
  · next e he =>
    split at hok
    · cases hok
    · next hfatal =>
      cases hok
      have hdecline := declines hhead hp hq hrel (declines_of_isFatal he hfatal)
      exact ⟨none, d, outcome_optional_of_declines hdecline, rfl, hrel⟩

/-- A repetition goes on as often in the second source. -/
theorem many0 (hguard : Guarded t S.spot p) (hmany : Guarded t S.spot fun t => Parser.many0 (p t))
    (h : S.Follows t view p q) :
    S.Follows t (List.map view) (fun t => Parser.many0 (p t)) (fun t => Parser.many0 (q t)) := by
  intro c d as e hrel hok hneeded
  induction hn : c.remaining using Nat.strongRecOn generalizing c d as with
  | ind n ih =>
    rw [outcome_many0] at hok
    split at hok
    · next r hr =>
      obtain ⟨a, c'⟩ := r
      split at hok
      · next hlt =>
        obtain ⟨s, hrest, heq⟩ := bind_eq_ok.1 hok
        cases heq
        obtain ⟨hneeded₁, hneeded₂⟩ := hneeded.many0 hguard hmany hrel hr hlt hrest
        obtain ⟨a', d', hr', hview, hrel'⟩ := h hrel hr hneeded₁
        obtain ⟨bs', e', hrest', hviews, hrel''⟩ := ih _ (hn ▸ hlt) hrel' hrest hneeded₂ rfl
        refine ⟨a' :: bs', e', ?_, ?_, hrel''⟩
        · rw [outcome_many0, hr']
          dsimp only
          rw [if_pos ((hrel.remaining_lt_iff hrel').2 hlt), hrest', ok_bind]
        · rw [List.map_cons, List.map_cons, hview, hviews]
      · next hlt =>
        cases hok
        -- a reading without progress stands still, and so it is in the second source
        have hstill : c' = e := (hguard.forward hr).1.eq_of_remaining_le (Nat.not_lt.1 hlt)
        obtain ⟨a', d', hr', -, hrel'⟩ :=
          h hrel hr fun hspan => absurd hspan.2 (Nat.not_lt.2 (hstill ▸ hspan.1))
        refine ⟨[], d, ?_, rfl, hrel⟩
        rw [outcome_many0, hr']
        exact if_neg (mt (hrel.remaining_lt_iff hrel').1 hlt)
    · next f hf =>
      split at hok
      · cases hok
      · next hfatal =>
        cases hok
        have hdecline := declines hhead hp hq hrel (declines_of_isFatal hf hfatal)
        exact ⟨[], d, outcome_many0_of_declines hdecline, rfl, hrel⟩

end Repetition

/-- The further elements of a list follow the replacement, since each of them stands behind a comma.
-/
theorem moreElements (hguard : Guarded t S.spot p) (h : S.Follows t view p q) :
    S.Follows t (List.map view) (fun t => Parser.moreElements "," (p t))
      (fun t => Parser.moreElements "," (q t)) := by
  intro c d as e hrel hok hneeded
  have hcomma : IsPunctuation ',' := by decide
  induction hn : c.remaining using Nat.strongRecOn generalizing c d as with
  | ind n ih =>
    have hmark : d.skipSpace.peek = "," ↔ c.skipSpace.peek = "," := hrel.skipSpace.peek_iff hcomma
    rw [outcome_moreElements] at hok
    split at hok
    · next hpeek =>
      obtain ⟨⟨a, c'⟩, hfirst, hok⟩ := bind_eq_ok.1 hok
      have hlt : c'.remaining < c.remaining := Nat.lt_of_le_of_lt
        (hguard.forward hfirst).1.remaining_le
        (Cursor.remaining_lt_of_peek (by rw [hpeek]; decide))
      rw [if_pos hlt] at hok
      obtain ⟨s, hrest, heq⟩ := bind_eq_ok.1 hok
      cases heq
      obtain ⟨hneeded₁, hneeded₂⟩ := hneeded.moreElements hguard hrel hpeek hfirst hlt hrest
      obtain ⟨a', d', hfirst', hview, hrel'⟩ :=
        h (hrel.skipSpace.advance_mark hcomma hpeek).skipSpace hfirst hneeded₁
      obtain ⟨bs', e', hrest', hviews, hrel''⟩ := ih _ (hn ▸ hlt) hrel' hrest hneeded₂ rfl
      refine ⟨a' :: bs', e', ?_, ?_, hrel''⟩
      · rw [outcome_moreElements, if_pos (hmark.2 hpeek), hfirst', ok_bind]
        dsimp only
        rw [if_pos ((hrel.remaining_lt_iff hrel').2 hlt), hrest', ok_bind]
      · rw [List.map_cons, List.map_cons, hview, hviews]
    · next hpeek =>
      cases hok
      exact ⟨[], d, by rw [outcome_moreElements, if_neg (mt hmark.1 hpeek)], rfl, hrel⟩

theorem elements (hguard : Guarded t S.spot p) (h : S.Follows t view p q) :
    S.Follows t (List.map view) (fun t => Parser.elements (p t))
      (fun t => Parser.elements (q t)) := by
  intro c d as e hrel hok hneeded
  have hclosing : d.peek = ")" ↔ c.peek = ")" := hrel.peek_iff (by decide : IsPunctuation ')')
  rw [outcome_elements] at hok
  split at hok
  · next hpeek =>
    cases hok
    exact ⟨[], d, by rw [outcome_elements, if_pos (hclosing.2 hpeek)], rfl, hrel⟩
  · next hpeek =>
    have hsequence : S.Follows t (List.map view)
        (fun t => p t >>= fun a => Parser.moreElements "," (p t) >>= fun as => pure (a :: as))
        (fun t => q t >>= fun a => Parser.moreElements "," (q t) >>= fun as => pure (a :: as)) := by
      refine .bind hguard (fun _ => hguard.moreElements.bind fun _ => .const (.pure trivial)) h
        fun a a' hview => .bind hguard.moreElements (fun _ => .const (.pure trivial))
          (h.moreElements hguard) fun as as' hviews => ?_
      exact .pure (by rw [List.map_cons, List.map_cons, hview, hviews])
    obtain ⟨as', e', hok', hview, hrel'⟩ := hsequence hrel hok <|
      hneeded.of_imp (Nat.le_refl _) fun r hr =>
        ⟨r, by rw [outcome_elements, if_neg hpeek]; exact hr⟩
    refine ⟨as', e', ?_, hview, hrel'⟩
    rw [outcome_elements, if_neg (mt hclosing.1 hpeek)]
    exact hok'

/-- Of several forms with heads of their own, the same one is taken in both sources. -/
theorem alt {ι : Type} {forms : List ι} {p q : ι → Terms → Parser α} {head : ι → Cursor → Prop}
    (hunique : ∀ form other c, head form c → head other c → other = form)
    (hp : ∀ form t, (p form t).Commits (head form))
    (hq : ∀ form t, (q form t).Commits (head form))
    (h : ∀ form, S.Follows t view (p form) (q form)) :
    S.Follows t view (fun t => Parser.alt (forms.map (p · t)))
      (fun t => Parser.alt (forms.map (q · t))) := by
  intro c d a c' hrel hok hneeded
  obtain ⟨before, form, after, rfl, -, hform⟩ := exists_taken_of_choice hok
  have hmem : form ∈ before ++ form :: after := List.mem_append_right _ (List.mem_cons_self ..)
  have hhead := (hp form t).head_of_ok hform
  -- the head does not depend on the terms, so without the operand the same form is taken
  have hneeded' : S.Needed t (p form) c c' := hneeded.of_imp (Nat.le_refl _) fun r hr =>
    ⟨r, (outcome_alt_map hmem (fun form => hp form _) hhead
      fun other => hunique form other c hhead).trans hr⟩
  obtain ⟨a', d', hok', hview, hrel'⟩ := h form hrel hform hneeded'
  have hhead' := (hq form t).head_of_ok hok'
  refine ⟨a', d', ?_, hview, hrel'⟩
  rw [outcome_alt_map hmem (fun form => hq form t) hhead' fun other => hunique form other d hhead',
    hok']

end Follows

/-- What is put together from tokens and operands follows the replacement of a constant. -/
theorem follows_of_composed {b : Bool} (h : Composed b view p q) {constants : Table Text Literal}
    (ht : t.operand = literalOrConstant constants)
    (hliteral : constants.get? S.old = some S.literal) (hspares : constants.SparesBooleans) :
    S.Follows t view p q := by
  have htakes : t.operand.Takes fun _ => True := ht ▸ literalOrConstant_takes constants
  induction h with
  | still hp hq h => exact .still hp hq h
  | token h => exact .token h
  | operand => exact .operand ht hliteral hspares
  | slot => exact .of_local (t := t) (stateVariable_local t.slots)
  | here _ ih => exact fun c d a c' hrel hok hneeded => ih c d hrel hok hneeded
  | bind hfirst hnext ih ihnext =>
    exact .bind (hfirst.guarded htakes _) (fun a => (hnext a a rfl).guarded htakes _) ih ihnext
  | after hp hnext ih =>
    exact .bind (.const hp.forward) (fun _ => hnext.guarded htakes _) (.separator hp)
      fun _ _ _ => ih
  | committed _ ih => exact ih.committed
  | optional hhead hp hq _ ih => exact ih.optional hhead hp hq
  | many0 hhead hp hq hclause ih =>
    have hmany := Composed.many0 (b := false) hhead hp hq hclause
    exact ih.many0 hhead hp hq (hclause.guarded htakes _) (hmany.guarded htakes _)
  | elements helement ih => exact ih.elements (helement.guarded htakes _)
  | matchers hp hq _ _ ih =>
    have hunique : ∀ (form other : MatcherForm) c, form.Head c → other.Head c → other = form :=
      fun _ _ _ => MatcherForm.Head.unique
    exact .alt hunique hp hq ih

end Replacement

/-! ### Statements -/

/-- The source with a text in the place of what lies between two offsets. -/
def Source.splice (s : Source) (start stop : Nat) (t : Text) : Source :=
  .around s.name (s.text.take start) t (s.text.drop stop)

/-- A name before which no word ends may be replaced by a literal. -/
theorem Replacement.exists_of_name {o o' : Cursor} {x : Text} {l : Literal} (ho : o.Parted)
    (hname : Parser.name.outcome o = .ok (x, o')) (hl : l.Fits Width.size) :
    ∃ S : Replacement, S.spot = o ∧ S.old = x ∧ S.literal = l ∧
      S.right = o.source.splice o.offset o'.offset l.text := by
  obtain ⟨hin, hparted⟩ := ho
  obtain ⟨hword, hat⟩ := Parser.name_eq_ok_iff.1 hname
  obtain ⟨hcross, hstops⟩ := Cursor.word_iff.2 hat
  have hafter : o'.rest = o.source.text.drop o'.offset := by
    rw [o'.rest_eq, hcross.leads.source_eq]
  have hcursor : o.source.cursor o.offset = o := Cursor.ext_offset rfl rfl
  have hlast : o.previous? = (o.source.text.take o.offset).getLast? := by
    rw [← Source.previous?_cursor _ (Cursor.inSource_iff.1 hin), hcursor]
  have hlength : (o.source.text.take o.offset).length = o.offset :=
    List.length_take_of_le (Cursor.inSource_iff.1 hin)
  refine ⟨{
    name := o.source.name
    before := o.source.text.take o.offset
    old := x
    after := o.source.text.drop o'.offset
    literal := l
    old_isName := hword
    fits := hl
    parted := hlast ▸ hparted
    stops := hafter ▸ hstops }, ?_, rfl, rfl, rfl⟩
  have htext : o.source.text.take o.offset ++ (x ++ o.source.text.drop o'.offset) =
      o.source.text := by
    rw [← hafter, ← hcross.rest_eq, o.rest_eq, List.take_append_drop]
  refine Cursor.ext_offset ?_ hlength
  exact congrArg (Source.mk o.source.name) htext

namespace Parser

/-- Constants are transparent. Where an operand of a statement is read as the name of a constant,
the text of the constant may take the place of the name: the parser of the form, and that of
statements, read the same statement up to the places that it remembers, and leave the same text. -/
theorem statement_substitute [NestingLimit] {scope : Scope} {form : StatementForm} {c o o' : Cursor}
    {x : Text} {l : Literal} (hfit : ConstantsFit Width.size scope.constants)
    (hspares : scope.constants.SparesBooleans)
    (hoperand : HasOperandAt (statementForm · form) scope c o)
    (hname : name.outcome o = .ok (x, o')) (hconstant : scope.constants.get? x = some l) :
    ∃ st e st' e',
      (∀ p ∈ [statementForm scope form, statement scope],
        p.outcome c = .ok (st, e) ∧
        p.outcome ((c.source.splice o.offset o'.offset l.text).cursor c.offset) =
          .ok (st', e')) ∧
      st'.unlocated = st.unlocated ∧ e'.rest = e.rest := by
  have hcomposed := statementForm_composed (b := false) form
  have htakes : scope.terms.operand.Takes fun _ => True := literalOrConstant_takes scope.constants
  obtain ⟨⟨st, e⟩, hok⟩ := hoperand.1
  have hc : c.inSource := by
    have hlength := (statementForm_takes (fun _ => Nat.le_refl _) scope form).consumes hok
    refine Cursor.inSource_of_rest_ne_nil fun hnil => ?_
    rw [hnil] at hlength
    exact Nat.not_lt_zero _ hlength
  have hguarded := hcomposed.guarded htakes o
  obtain ⟨hsource, hstart, hend⟩ := hoperand.spans hguarded hc hok
  obtain ⟨S, rfl, rfl, rfl, hright⟩ := Replacement.exists_of_name
    (hoperand.parted hcomposed htakes.yields) hname (hfit.get? hconstant)
  have hrel : S.Rel c (S.right.cursor c.offset) := by
    have hleft : c = S.left.cursor c.offset := Cursor.ext_offset hsource rfl
    nth_rewrite 1 [hleft]
    exact .before hstart
  obtain ⟨st', e', hok', hview, hrel'⟩ := S.follows_of_composed hcomposed (t := scope) rfl
    hconstant hspares hrel hok fun _ => hoperand.not_ok hguarded
  rw [hsource, ← hright]
  refine ⟨st, e, st', e', ?_, hview, hrel'.rest_eq hend⟩
  simp only [List.forall_mem_cons, List.not_mem_nil, false_implies, implies_true, and_true]
  exact ⟨⟨hok, hok'⟩, statement_of_form hok, statement_of_form hok'⟩

/-- The operand of a matcher, before the mark that ends a clause. -/
theorem statement_substitute_code :
    let scope : Scope := { constants := .ofList [("code", .int .u16 7)] }
    let c := (⟨"", "do \x7b match event code; \x7d"⟩ : Source).start
    let d := (⟨"", "do \x7b match event 0x7~u16; \x7d"⟩ : Source).start
    HasOperandAt (statementForm · .doBlock) scope c (c.source.cursor 17) ∧
    ∃ st e st' e', (statement scope).outcome c = .ok (st, e) ∧
      (statement scope).outcome d = .ok (st', e') ∧ st'.unlocated = st.unlocated := by
  intro scope c d
  obtain ⟨r, hread, -⟩ := exists_of_toOption_map (f := fun r => r.2.offset) (b := 24)
    (x := (statementForm scope .doBlock).outcome c) (by decide +kernel)
  have hnone : ((statementForm (scope.terms.exceptAt (c.source.cursor 17)) .doBlock).outcome
      c).toOption.isSome = false := by decide +kernel
  have hoperand : HasOperandAt (statementForm · .doBlock) scope c (c.source.cursor 17) := by
    refine ⟨⟨r, hread⟩, fun hsame => ?_⟩
    rw [hsame, hread] at hnone
    cases hnone
  have hfit : ConstantsFit Width.size scope.constants := by decide
  have hname : name.outcome (c.source.cursor 17) = .ok ("code", c.source.cursor 21) := rfl
  have hsplice : (c.source.splice 17 21 (Literal.int .u16 7).text).cursor 0 = d := by
    decide +kernel
  obtain ⟨st, e, st', e', hreads, hview, -⟩ := statement_substitute hfit
    (fun b => by cases b <;> rfl) hoperand hname rfl
  obtain ⟨hleft, hright⟩ :=
    hreads (statement scope) (List.mem_cons_of_mem _ (List.mem_singleton_self _))
  exact ⟨hoperand, st, e, st', e', hleft, hsplice ▸ hright, hview⟩

end Parser

end EventRules
