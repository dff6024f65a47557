/-
# What is read under other terms

Let there be two terms such that the second reads every operand that the first reads, at least in
certain places and over certain spans of the source. Then the second also reads every statement that
the first reads, with the same value and the same end. For this the places have to include all those
behind a separator, and the parts of a span have to be spans as well.

The proof is by induction on how a statement is put together. Whether an optional part is present is
told by its head, which does not depend on the terms.
-/

import EventRules.Proofs.Composition
import EventRules.Proofs.Yields

namespace EventRules

/-- The parts of a span are spans. -/
def Cursor.Divides (B : Cursor → Cursor → Prop) : Prop :=
  ∀ ⦃c d e : Cursor⦄, c.Leads d → d.Leads e → B c e → B c d ∧ B d e

theorem Cursor.Divides.all : Divides fun _ _ => True :=
  fun _ _ _ _ _ _ => ⟨trivial, trivial⟩

namespace Parser

variable {A A' : Cursor → Prop} {B : Cursor → Cursor → Prop} {α β : Type}

/-- The places behind every separator are included. -/
def Separates (A : Cursor → Prop) : Prop :=
  ∀ ⦃b : Bool⦄ ⦃p : Parser Unit⦄, Separator b p →
    ∀ ⦃c c' : Cursor⦄, (b = true → A c) → p.outcome c = .ok ((), c') → A c'

theorem Separates.all : Separates fun _ => True :=
  fun _ _ _ _ _ _ _ => trivial

/-- What the first parser reads at one of the places and over one of the spans, the second one reads
too. -/
def Carries (A : Cursor → Prop) (B : Cursor → Cursor → Prop) (p q : Parser α) : Prop :=
  ∀ ⦃c : Cursor⦄ ⦃a : α⦄ ⦃c' : Cursor⦄, A c → B c c' →
    p.outcome c = .ok (a, c') → q.outcome c = .ok (a, c')

namespace Carries

variable {p q : Parser α}

theorem refl (p : Parser α) : p.Carries A B p :=
  fun _ _ _ _ _ h => h

theorem mono (h : p.Carries A B q) (hA : ∀ c, A' c → A c) : p.Carries A' B q :=
  fun _ _ _ hc hB hok => h (hA _ hc) hB hok

/-- A sequence is read part by part; its second part starts where the first one has ended. -/
theorem bind {f g : α → Parser β} (hB : Cursor.Divides B) (hp : p.Forward)
    (hf : ∀ a, (f a).Forward) (h : p.Carries A B q) (hfg : ∀ a, (f a).Carries A' B (g a))
    (hA : ∀ c a c', A c → p.outcome c = .ok (a, c') → A' c') :
    (p >>= f).Carries A B (q >>= g) := by
  intro c r e hc hspan hok
  rw [outcome_bind] at hok ⊢
  obtain ⟨⟨a, d⟩, hfirst, hsecond⟩ := bind_eq_ok.1 hok
  obtain ⟨hspan₁, hspan₂⟩ := hB (hp hfirst).1 (hf a hsecond).1 hspan
  exact bind_eq_ok.2 ⟨(a, d), h hc hspan₁ hfirst, hfg a (hA c a d hc hfirst) hspan₂ hsecond⟩

/-- Committing changes failures only. -/
theorem committed (h : p.Carries A B q) :
    (Parser.committed p).Carries A B (Parser.committed q) := by
  intro c a c' hc hspan hok
  rw [outcome_committed, mapError_eq_ok] at hok ⊢
  exact h hc hspan hok

/-- An option that is left out is left out by the second parser too. -/
theorem optional (h : p.Carries A B q) (hdeclines : ∀ c, p.Declines c → q.Declines c) :
    (Parser.optional p).Carries A B (Parser.optional q) := by
  intro c r c' hc hspan hok
  rw [outcome_optional] at hok
  split at hok
  · next s hs =>
    cases hok
    rw [outcome_optional, h hc hspan hs]
  · next d hd =>
    split at hok
    · cases hok
    · next hfatal =>
      cases hok
      exact outcome_optional_of_declines (hdeclines c (declines_of_isFatal hd hfatal))

/-- A repetition goes on as often with the second parser, by induction on what remains of the
source. -/
theorem many0 (hB : Cursor.Divides B) (hp : p.Forward) (h : p.Carries (fun _ => True) B q)
    (hdeclines : ∀ c, p.Declines c → q.Declines c) :
    (Parser.many0 p).Carries (fun _ => True) B (Parser.many0 q) := by
  intro c as e _ hspan hok
  induction hn : c.remaining using Nat.strongRecOn generalizing c as with
  | ind n ih =>
    rw [outcome_many0] at hok
    split at hok
    · next r hr =>
      split at hok
      · next hlt =>
        obtain ⟨⟨bs, e'⟩, hrest, heq⟩ := bind_eq_ok.1 hok
        cases heq
        obtain ⟨hspan₁, hspan₂⟩ := hB (hp hr).1 (hp.many0 hrest).1 hspan
        rw [outcome_many0, h trivial hspan₁ hr]
        dsimp only
        rw [if_pos hlt, ih _ (hn ▸ hlt) hspan₂ hrest rfl]
        rfl
      · next hlt =>
        cases hok
        obtain ⟨a, d⟩ := r
        obtain rfl : d = e := (hp hr).1.eq_of_remaining_le (Nat.not_lt.1 hlt)
        rw [outcome_many0, h trivial hspan hr]
        exact if_neg hlt
    · next d hd =>
      split at hok
      · cases hok
      · next hfatal =>
        cases hok
        exact outcome_many0_of_declines (hdeclines e (declines_of_isFatal hd hfatal))

/-- The further elements of a list stand behind a separator each. -/
theorem moreElements {mark : Char} (hmark : IsPunctuation mark) (hB : Cursor.Divides B)
    (hA : Separates A) (hp : p.Forward) (h : p.Carries A B q) :
    (Parser.moreElements [mark] p).Carries (fun _ => True) B (Parser.moreElements [mark] q) := by
  intro c as e _ hspan hok
  induction hn : c.remaining using Nat.strongRecOn generalizing c as with
  | ind n ih =>
    rw [outcome_moreElements] at hok ⊢
    have hlead : c.Leads (c.skipSpace.advance 1).skipSpace :=
      c.leads_skipSpace.trans ((c.skipSpace.leads_advance 1).trans (Cursor.leads_skipSpace _))
    split at hok
    · next hpeek =>
      have hplace : A (c.skipSpace.advance 1).skipSpace := by
        have hsymbol : (nextSymbol [mark]).outcome c = .ok ((), c.skipSpace.advance 1) := by
          rw [nextSymbol, outcome_bind, outcome_skipSpace, ok_bind, outcome_symbol, if_pos hpeek]
        have hbehind := hA (.nextSymbol (b := false) hmark) nofun hsymbol
        exact hA .skipSpace (fun _ => hbehind) (outcome_skipSpace _)
      rw [if_pos hpeek]
      obtain ⟨⟨a, d⟩, hfirst, hrest⟩ := bind_eq_ok.1 hok
      have hlead' := (hp hfirst).1
      split at hrest
      · next hlt =>
        obtain ⟨⟨bs, e'⟩, hmore, heq⟩ := bind_eq_ok.1 hrest
        cases heq
        have hlead'' := (Parser.moreElements_yields [mark] hp hmore).1
        obtain ⟨-, hspan'⟩ := hB hlead (hlead'.trans hlead'') hspan
        obtain ⟨hspan₁, hspan₂⟩ := hB hlead' hlead'' hspan'
        rw [h hplace hspan₁ hfirst]
        refine bind_eq_ok.2 ⟨(a, d), rfl, ?_⟩
        rw [if_pos hlt, ih _ (hn ▸ hlt) hspan₂ hmore rfl]
        rfl
      · next hlt =>
        cases hrest
        rw [h hplace (hB hlead hlead' hspan).2 hfirst]
        exact bind_eq_ok.2 ⟨_, rfl, if_neg hlt⟩
    · next hpeek =>
      rw [if_neg hpeek]
      exact hok

/-- Elements stand behind separators, the first one behind the opening mark. -/
theorem elements (hB : Cursor.Divides B) (hA : Separates A) (hp : p.Forward)
    (h : p.Carries A B q) : (Parser.elements p).Carries A B (Parser.elements q) := by
  have hcomma : IsPunctuation ',' := by decide
  have hmore : (Parser.moreElements "," p).Forward :=
    (Parser.moreElements_yields "," hp).mono fun _ _ => trivial
  intro c as e hc hspan hok
  rw [outcome_elements] at hok ⊢
  split at hok
  · next hpeek =>
    rw [if_pos hpeek]
    exact hok
  · next hpeek =>
    rw [if_neg hpeek]
    refine bind hB hp (fun _ => hmore.bind fun _ _ => .pure trivial) h (fun a => ?_)
      (fun _ _ _ _ _ => trivial) hc hspan hok
    exact bind hB hmore (fun _ => .pure trivial) (moreElements hcomma hB hA hp h)
      (fun _ => refl _) fun _ _ _ _ _ => trivial

end Carries

/-! ### Induction on the composition -/

theorem Token.forward {p : Parser α} (h : Token p) : p.Forward := by
  cases h with
  | keyword => exact Parser.keyword_yields _
  | keywordChoice => exact (Parser.keywordChoice_yields _).mono fun _ _ => trivial
  | name => exact Parser.name_yields
  | symbol => exact Parser.symbol_yields _
  | skipSpace => exact Parser.skipSpace_yields
  | space => exact Parser.space_yields
  | terminator => exact Parser.terminator_yields
  | clauseTerminator =>
    intro c a c' hok
    rw [outcome_clauseTerminator] at hok
    have hlead : c.Leads (c.skipSpace.advance 1) :=
      c.leads_skipSpace.trans (c.skipSpace.leads_advance 1)
    split at hok
    · split at hok
      · cases hok
        exact ⟨hlead, trivial⟩
      · cases hok
        exact ⟨.refl _, trivial⟩
    · exact Parser.terminator_yields hok

theorem Separator.forward {b : Bool} {p : Parser Unit} (h : Separator b p) : p.Forward := by
  cases h with
  | space => exact Parser.space_yields
  | symbol => exact Parser.symbol_yields _
  | nextSymbol => exact Parser.nextSymbol_yields _
  | skipSpace => exact Parser.skipSpace_yields

/-- What is put together from parsers that only move forward, only moves forward. -/
theorem Composed.forward {b : Bool} {γ : Type} {view : α → γ} {p q : Terms → Parser α}
    (h : Composed b view p q) {t : Terms} (ht : t.operand.Forward) : (p t).Forward := by
  induction h with
  | still hp =>
    intro c a c' hok
    rw [hp] at hok
    obtain ⟨_, -, heq⟩ := map_eq_ok.1 hok
    cases heq
    exact ⟨.refl _, trivial⟩
  | token hp => exact hp.forward
  | operand => exact ht
  | slot =>
    intro c a c' hok
    rw [outcome_stateVariable] at hok
    split at hok
    · cases hok
    · next hname =>
      split at hok
      · cases hok
        exact Parser.name_yields hname
      · cases hok
  | here _ ih => exact .bind .here fun c _ => ih c c
  | bind _ _ ih ihnext => exact ih.bind fun a _ => ihnext a a rfl
  | after hp _ ih => exact hp.forward.bind fun _ _ => ih
  | committed _ ih => exact ih.committed
  | optional _ _ _ _ ih => exact ih.optional.mono fun _ _ => trivial
  | many0 _ _ _ _ ih => exact ih.many0.mono fun _ _ => trivial
  | elements _ ih =>
    refine .bind .here fun c _ => ?_
    split
    · exact .pure trivial
    · exact ih.bind fun _ _ => (Parser.moreElements_yields _ ih).bind fun _ _ => .pure trivial
  | matchers _ _ _ _ ih => exact .alt (List.forall_mem_map.2 fun form _ => ih form)

end Parser

/-- The second terms read what the first ones read at the places and over the spans, know all their
state variables, and try the forms of a matcher in the same order. -/
structure Terms.Covers (A : Cursor → Prop) (B : Cursor → Cursor → Prop) (t t' : Terms) :
    Prop where
  operand : t.operand.Carries A B t'.operand
  slots : ∀ name slot, t.slots.get? name = some slot → t'.slots.get? name = some slot
  matchers : t'.matchers = t.matchers

namespace Parser

variable {A : Cursor → Prop} {B : Cursor → Cursor → Prop}

/-- A larger table of slots gives the same slots. -/
theorem stateVariable_carries {slots slots' : Table Text Nat}
    (h : ∀ name slot, slots.get? name = some slot → slots'.get? name = some slot) :
    (stateVariable slots).Carries A B (stateVariable slots') := by
  intro c a c' _ _ hok
  rw [outcome_stateVariable] at hok ⊢
  split at hok
  · cases hok
  · split at hok
    · next hslot =>
      cases hok
      simp [h _ _ hslot]
    · cases hok

/-- A choice among forms with heads takes the same form for both parsers. -/
theorem alt_carries {α ι : Type} {p q : ι → Parser α} {forms : List ι}
    {head : ι → Cursor → Prop} (hp : ∀ form, (p form).Commits (head form))
    (hq : ∀ form, (q form).Commits (head form)) (h : ∀ form, (p form).Carries A B (q form)) :
    (alt (forms.map p)).Carries A B (alt (forms.map q)) := by
  intro c a c' hc hspan hok
  obtain ⟨before, form, after, rfl, hbefore, hform⟩ := exists_taken_of_choice hok
  have hright := h form hc hspan hform
  rw [alt, List.map_append, List.map_cons,
    outcome_choice_of_declines ?_ (not_declines_of_ok hright)]
  · exact hright
  · refine List.forall_mem_map.2 fun other hother => (hq other c).2 ?_
    exact (hp other c).1 (hbefore other hother)

/-- What is put together from covered terms is read under the covering ones too. -/
theorem Composed.carries {b : Bool} {α γ : Type} {view : α → γ} {p q : Terms → Parser α}
    (h : Composed b view p q) {t t' : Terms} (ht : t.operand.Forward) (hA : Separates A)
    (hB : Cursor.Divides B) (hcovers : t.Covers A B t') :
    (p t).Carries (fun c => b = true → A c) B (p t') := by
  have hdeclines {α : Type} {p : Terms → Parser α} {head : Cursor → Prop}
      (hp : ∀ t, (p t).Commits head) (c : Cursor) (hdecline : (p t).Declines c) :
      (p t').Declines c :=
    (hp t' c).2 ((hp t c).1 hdecline)
  induction h with
  | still => exact .refl _
  | token => exact .refl _
  | operand => exact hcovers.operand.mono fun c hc => hc rfl
  | slot => exact stateVariable_carries hcovers.slots
  | here _ ih => exact fun c a c' hc hspan hok => ih c c hc hspan hok
  | bind hfirst hnext ih ihnext =>
    exact .bind hB (hfirst.forward ht) (fun a => (hnext a a rfl).forward ht) ih
      (fun a => ihnext a a rfl) fun _ _ _ _ _ => nofun
  | after hp hnext ih =>
    exact .bind hB hp.forward (fun _ => hnext.forward ht) (.refl _) (fun _ => ih)
      fun c _ c' hc hok _ => hA hp hc hok
  | committed _ ih => exact ih.committed
  | optional _ hp _ _ ih => exact ih.optional (hdeclines hp)
  | many0 _ hp _ hclause ih =>
    have hmany := (ih.mono fun _ _ => nofun).many0 hB (hclause.forward ht) (hdeclines hp)
    exact hmany.mono fun _ _ => trivial
  | elements helement ih =>
    have helements := (ih.mono fun _ hc _ => hc).elements hB hA (helement.forward ht)
    exact helements.mono fun _ hc => hc rfl
  | matchers hp _ _ _ ih =>
    dsimp only
    rw [hcovers.matchers]
    exact alt_carries (fun form => hp form t) (fun form => hp form t')
      fun form => (ih form).mono fun _ _ => nofun

end Parser

end EventRules
