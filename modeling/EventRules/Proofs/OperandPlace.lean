/-
# Where operands stand

Something that is read has an operand at a place if it depends on it: if the reader of operands
failed at this place and nowhere else, something else would come out. The failure is a fatal one,
which no alternative recovers from, so this is so wherever an operand is asked for, and then nothing
is read at all. Such a place lies between the start and the end of what is read, and behind space or
a mark, so no word runs into it.

A part that does not run over the place is read whether or not the operand there can be read.
-/

import EventRules.Proofs.Carrying
import EventRules.Proofs.Locality

namespace EventRules

/-- The parser, except that it fails at one place, and fatally, so that nothing else is tried. -/
def Parser.exceptAt {α : Type} (p : Parser α) (o : Cursor) : Parser α := fun c =>
  if c = o then .fail (Diagnostic.expected c .something).escalate else p c

/-- The terms, except that no operand is read at one place. -/
def Terms.exceptAt (t : Terms) (o : Cursor) : Terms :=
  { t with operand := t.operand.exceptAt o }

/-- What is read at `c` has an operand at `o`: something is read, and the outcome is another one if
no operand can be read at `o`. -/
def Parser.HasOperandAt {α : Type} (p : Terms → Parser α) (t : Terms) (c o : Cursor) : Prop :=
  (∃ r, (p t).outcome c = .ok r) ∧ (p (t.exceptAt o)).outcome c ≠ (p t).outcome c

namespace Cursor

variable {c d o : Cursor} {t : Text}

theorem Crosses.offset_eq (h : c.Crosses t d) : d.offset = c.offset + t.length := by
  obtain ⟨hc, hstarts, rfl⟩ := h
  have hlength := hstarts.length_le
  rw [c.length_rest] at hlength
  rw [inSource_iff] at hc
  rw [offset_advance]
  omega

/-- The cursor lies in its source, and no word ends there. -/
def Parted (c : Cursor) : Prop :=
  c.inSource ∧ ∀ ch ∈ c.previous?, isWordChar ch = false

/-- The span starts within its source and does not run over the place. -/
def Misses (o c d : Cursor) : Prop :=
  c.inSource ∧ ¬ (c.source = o.source ∧ c.offset ≤ o.offset ∧ o.offset < d.offset)

/-- Spans that miss the place divide into spans that do. -/
theorem divides_misses (o : Cursor) : Divides (Misses o) := by
  rintro c d e hcd hde ⟨hc, hmiss⟩
  have hd := hcd.inSource hc
  have hsource := hcd.source_eq
  have hle := hcd.offset_le hc
  have hle' := hde.offset_le hd
  constructor
  · refine ⟨hc, fun ⟨hso, hstart, hend⟩ => hmiss ⟨hso, hstart, by omega⟩⟩
  · refine ⟨hd, fun ⟨hso, hstart, hend⟩ => hmiss ⟨hsource ▸ hso, by omega, hend⟩⟩

end Cursor

namespace Parser

variable {α γ : Type} {t : Terms} {o c : Cursor}

/-- The parser is made to fail at one place, and does what it did everywhere else. -/
theorem outcome_exceptAt (p : Parser α) (o c : Cursor) :
    (p.exceptAt o).outcome c =
      if c = o then .error (Diagnostic.expected c .something).escalate else p.outcome c := by
  rw [outcome, run, exceptAt]
  split <;> rfl

/-- The parts that are put together are read alike with and without the operand at the place, if
they do not run over it. -/
structure Guarded (t : Terms) (o : Cursor) (p : Terms → Parser α) : Prop where
  forward : (p t).Forward
  forward_except : (p (t.exceptAt o)).Forward
  sound : (p (t.exceptAt o)).Carries (fun _ => True) (fun _ _ => True) (p t)
  keeps : (p t).Carries (fun _ => True) (Cursor.Misses o) (p (t.exceptAt o))

/-- What is read without the operand is read with it. -/
theorem exceptAt_carries (p : Parser α) (o : Cursor) :
    (p.exceptAt o).Carries (fun _ => True) (fun _ _ => True) p := by
  intro c a c' _ _ hok
  rw [outcome_exceptAt] at hok
  split at hok
  · cases hok
  · exact hok

/-- Away from the place nothing changes. -/
theorem carries_exceptAt {A : Cursor → Prop} {B : Cursor → Cursor → Prop} {p : Parser α}
    (h : ∀ a c', A o → B o c' → p.outcome o ≠ .ok (a, c')) : p.Carries A B (p.exceptAt o) := by
  intro c a c' hA hB hok
  rw [outcome_exceptAt, if_neg]
  · exact hok
  · rintro rfl
    exact h a c' hA hB hok

/-- What is composed from tokens and operands is guarded, since an operand that is read at the place
would run over it. -/
theorem Composed.guarded {b : Bool} {view : α → γ} {p q : Terms → Parser α}
    (h : Composed b view p q) (ht : t.operand.Takes fun _ => True) (o : Cursor) :
    Guarded t o p := by
  have hexcept : (t.exceptAt o).operand.Forward := fun c a c' hok =>
    ht.yields (exceptAt_carries t.operand o trivial trivial hok)
  refine ⟨h.forward ht.yields, h.forward hexcept, ?_, ?_⟩
  · have hcovers : (t.exceptAt o).Covers (fun _ => True) (fun _ _ => True) t :=
      ⟨exceptAt_carries t.operand o, fun _ _ => id, rfl⟩
    exact (h.carries hexcept .all .all hcovers).mono
      fun _ _ _ => trivial
  · have hcovers : t.Covers (fun _ => True) (Cursor.Misses o) (t.exceptAt o) := by
      refine ⟨carries_exceptAt fun a c' _ hmiss hok => ?_, fun _ _ => id, rfl⟩
      exact hmiss.2 ⟨rfl, Nat.le_refl _, ht.offset_lt hok⟩
    exact (h.carries ht.yields .all (Cursor.divides_misses o) hcovers).mono fun _ _ _ => trivial

/-- Without its operand nothing is read. -/
theorem HasOperandAt.not_ok {p : Terms → Parser α} (h : HasOperandAt p t c o)
    (hp : Guarded t o p) (r : α × Cursor) : (p (t.exceptAt o)).outcome c ≠ .ok r := by
  intro hr
  exact h.2 (hr.trans (hp.sound trivial trivial hr).symm)

/-- The place of an operand lies between the start and the end of what is read. -/
theorem HasOperandAt.spans {p : Terms → Parser α} {a : α} {c' : Cursor}
    (h : HasOperandAt p t c o) (hp : Guarded t o p) (hc : c.inSource)
    (hok : (p t).outcome c = .ok (a, c')) :
    c.source = o.source ∧ c.offset ≤ o.offset ∧ o.offset < c'.offset := by
  by_contra hmiss
  exact h.2 ((hp.keeps trivial ⟨hc, hmiss⟩ hok).trans hok.symm)

/-! ### Separators -/

/-- No word ends behind a text that does not end like one. -/
theorem parted_of_crosses {d : Cursor} {u : Text} (h : c.Crosses u d)
    (hu : ∀ ch ∈ u.getLast?, isWordChar ch = false) (hc : u = [] → c.Parted) : d.Parted := by
  refine ⟨h.leads.inSource h.1, fun ch hch => ?_⟩
  by_cases hempty : u = []
  · rw [h.2.2, hempty, List.length_nil, Cursor.advance_zero h.1] at hch
    exact (hc hempty).2 ch hch
  · rw [h.2.2, Cursor.previous?_advance hempty h.rest_eq] at hch
    exact hu ch hch

theorem parted_skipSpace (hc : c.rest.takeWhile isSpace = [] → c.Parted) (h : c.inSource) :
    c.skipSpace.Parted := by
  refine parted_of_crosses (Cursor.crosses_skipSpace h) (fun ch hch => ?_) hc
  exact not_isWordChar_of_isSpace (List.mem_takeWhile_imp (List.mem_of_mem_getLast? hch))

theorem parted_mark {d : Cursor} {mark : Char} (h : c.Mark mark d)
    (hmark : isWordChar mark = false) : d.Parted := by
  obtain ⟨b, -, hcross⟩ := h
  refine parted_of_crosses hcross (fun ch hch => ?_) nofun
  obtain rfl := Option.some.inj hch
  exact hmark

/-- Behind a separator no word ends. -/
theorem separates_parted : Separates Cursor.Parted := by
  intro b p hp c c' hc hok
  cases hp with
  | space =>
    rw [outcome_space] at hok
    split at hok
    · cases hok
    · next hne =>
      cases hok
      refine parted_skipSpace (fun hempty => absurd hempty hne) ?_
      exact Cursor.inSource_of_rest_ne_nil fun hnil => hne (by rw [hnil]; rfl)
  | symbol hmark =>
    have hcross := symbol_eq_ok_iff.1 hok
    refine parted_of_crosses hcross (fun ch hch => ?_) nofun
    obtain rfl := Option.some.inj hch
    exact hmark.2.1
  | nextSymbol hmark => exact parted_mark ((nextSymbol_eq_ok_iff hmark.1).1 hok) hmark.2.1
  | skipSpace =>
    rw [outcome_skipSpace] at hok
    cases hok
    exact parted_skipSpace (fun _ => hc rfl) (hc rfl).1

/-- An operand stands where no word ends. -/
theorem HasOperandAt.parted {view : α → γ} {p q : Terms → Parser α}
    (h : HasOperandAt p t c o) (hp : Composed false view p q) (ht : t.operand.Forward) :
    o.Parted := by
  by_contra hword
  -- operands are asked for only behind separators, and so never at a place where a word ends
  have hcovers : t.Covers Cursor.Parted (fun _ _ => True) (t.exceptAt o) :=
    ⟨carries_exceptAt fun _ _ hparted _ _ => hword hparted, fun _ _ => id, rfl⟩
  have hcarries := hp.carries ht separates_parted .all hcovers
  obtain ⟨⟨r, hr⟩, hother⟩ := h
  exact hother ((hcarries nofun trivial hr).trans hr.symm)

end Parser

end EventRules
