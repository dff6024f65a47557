/-
# Comments line by line

Blanking out comments treats every line on its own. A comment opens at the first two slashes behind
an even number of double quotes on the line; what stands before it is kept, and everything from
there to the end of the line becomes space.

Line feeds stay where they are, so that every position keeps its line and its column. A text whose
comments are blanked out has no comments left, and it is compiled as the text with the comments is.
-/

import EventRules.Proofs.Line
import EventRules.Proofs.Quotation
import Mathlib.Data.Nat.Find
import Mathlib.Order.Bounds.Defs

namespace EventRules

namespace Comment

variable {line t : Text} {i j n : Nat}

/-! ### Comments on one line -/

/-- Two slashes stand at the offset of a line, behind an even number of double quotes. -/
def OpensAt (t : Text) (j : Nat) : Prop :=
  t[j]? = some '/' ∧ t[j + 1]? = some '/' ∧ Even ((t.take j).count '"')

instance : Decidable (OpensAt line j) :=
  inferInstanceAs (Decidable (_ ∧ _ ∧ _))

/-- What becomes of a line: without a comment it is kept, and otherwise the first comment on it is
blanked out. -/
inductive LineBlanked (line : Text) : Text → Prop
  | kept (h : ∀ j, ¬ OpensAt line j) : LineBlanked line line
  | cut {j : Nat} (h : IsLeast {j | OpensAt line j} j) :
      LineBlanked line (line.take j ++ List.replicate (line.length - j) ' ')

/-- On a line, all double quotes count. -/
theorem quotesOnLine_of_lacks (h : t.Lacks '\n') : quotesOnLine n t = n + t.count '"' := by
  induction t generalizing n with
  | nil => rfl
  | cons c t ih =>
    rw [Text.Lacks, List.mem_cons, not_or] at h
    rw [quotesOnLine, List.foldl_cons, ← quotesOnLine, ih h.2, tally, if_neg (Ne.symm h.1)]
    by_cases hc : c = '"'
    · simp [hc, Nat.add_assoc, Nat.add_comm 1]
    · simp [hc]

theorem slashes_prefix_iff : "//" <+: t.drop j ↔ t[j]? = some '/' ∧ t[j + 1]? = some '/' := by
  change ['/', '/'] <+: t.drop j ↔ _
  rw [← List.getElem?_drop, ← Nat.add_zero j, ← List.getElem?_drop, Nat.add_zero]
  rcases t.drop j with _ | ⟨a, _ | ⟨b, u⟩⟩
  · simp
  · simp
  · simp only [List.cons_prefix_cons, List.nil_prefix, and_true, List.getElem?_cons_zero,
      List.getElem?_cons_succ, Option.some_inj]
    exact and_congr eq_comm eq_comm

/-- On a line, comments start where they open. -/
theorem startsAt_iff_opensAt (h : line.Lacks '\n') : StartsAt line j ↔ OpensAt line j := by
  have htake : Text.Lacks '\n' (line.take j) := fun hmem => h (List.mem_of_mem_take hmem)
  rw [StartsAt, StartsFrom, OpensAt, slashes_prefix_iff, quotesOnLine_of_lacks htake,
    Nat.zero_add, and_assoc]

/-- On a line, a comment goes on to the end. -/
theorem coversFrom_iff_opensAt (h : line.Lacks '\n') :
    CoversFrom 0 line j ↔ ∃ i ≤ j, OpensAt line i := by
  constructor
  · rintro ⟨i, hi, hstart, -⟩
    exact ⟨i, hi, (startsAt_iff_opensAt h).1 hstart⟩
  · rintro ⟨i, hi, hopens⟩
    refine ⟨i, hi, (startsAt_iff_opensAt h).2 hopens, fun hmem => h ?_⟩
    exact List.mem_of_mem_drop (List.mem_of_mem_take hmem)

theorem OpensAt.lt_length (h : OpensAt line j) : j + 1 < line.length :=
  (List.getElem?_eq_some_iff.1 h.2.1).1

/-- A line without a comment stays as it is. -/
theorem blank_of_not_opensAt (hline : line.Lacks '\n') (h : ∀ j, ¬ OpensAt line j) :
    blank line = line := by
  apply List.ext_getElem?
  intro k
  apply getElem?_blank_of_not_covers
  rw [coversFrom_iff_opensAt hline]
  rintro ⟨i, -, hopens⟩
  exact h i hopens

/-- A line is kept up to its first comment, and blank from there on. -/
theorem blank_of_isLeast (hline : line.Lacks '\n') (h : IsLeast {j | OpensAt line j} j) :
    blank line = line.take j ++ List.replicate (line.length - j) ' ' := by
  have hopens : OpensAt line j := h.1
  have hlt := hopens.lt_length
  have hlength : (line.take j).length = j := List.length_take_of_le (by omega)
  apply List.ext_getElem?
  intro k
  by_cases hk : k < j
  · have hcovers : ¬ CoversFrom 0 line k := by
      rw [coversFrom_iff_opensAt hline]
      rintro ⟨i, hi, hearlier⟩
      have := h.2 hearlier
      omega
    rw [getElem?_blank_of_not_covers hcovers, List.getElem?_append_left (by omega),
      List.getElem?_take_of_lt hk]
  · have hcovers : CoversFrom 0 line k :=
      (coversFrom_iff_opensAt hline).2 ⟨j, by omega, hopens⟩
    rw [getElem?_blank_of_covers hcovers, List.getElem?_append_right (by omega), hlength,
      List.getElem?_replicate]
    by_cases hend : k < line.length
    · rw [List.getElem?_eq_getElem hend, if_pos (by omega), Option.map_some]
    · rw [List.getElem?_eq_none (by omega), if_neg (by omega), Option.map_none]

theorem lineBlanked_blank (hline : line.Lacks '\n') : LineBlanked line (blank line) := by
  by_cases h : ∃ j, OpensAt line j
  · have hleast : IsLeast {j | OpensAt line j} (Nat.find h) :=
      ⟨Nat.find_spec h, fun _ hj => Nat.find_min' h hj⟩
    rw [blank_of_isLeast hline hleast]
    exact .cut hleast
  · rw [not_exists] at h
    rw [blank_of_not_opensAt hline h]
    exact .kept h

/-- No comment is left on a line. -/
theorem LineBlanked.not_opensAt (h : LineBlanked line t) : ¬ OpensAt t i := by
  cases h with
  | kept h => exact h i
  | @cut j h =>
    have hopens : OpensAt line j := h.1
    have hlt := hopens.lt_length
    have hlength : (line.take j).length = j := List.length_take_of_le (by omega)
    rintro ⟨hfirst, hsecond, heven⟩
    have hbefore : i + 1 < j := by
      by_contra hle
      rw [List.getElem?_append_right (by omega), List.getElem?_replicate] at hsecond
      split at hsecond <;> simp at hsecond
    rw [List.getElem?_append_left (by omega), List.getElem?_take_of_lt (by omega)] at hfirst hsecond
    rw [List.take_append_of_le_length (by omega), List.take_take,
      Nat.min_eq_left (by omega)] at heven
    have := h.2 ⟨hfirst, hsecond, heven⟩
    omega

/-! ### Comments in a text -/

/-- Blanking neither adds nor removes a line feed. -/
theorem getElem?_blank_eq_feed_iff : (blank t)[i]? = some '\n' ↔ t[i]? = some '\n' := by
  by_cases hcovers : CoversFrom 0 t i
  · rw [getElem?_blank_of_covers hcovers]
    refine iff_of_false ?_ hcovers.getElem?_ne
    simp [Option.map_eq_some_iff]
  · rw [getElem?_blank_of_not_covers hcovers]

theorem lacks_feed_blank (h : t.Lacks '\n') : (blank t).Lacks '\n' := by
  intro hmem
  obtain ⟨k, hk⟩ := List.mem_iff_getElem?.1 hmem
  exact h (List.mem_of_getElem? (getElem?_blank_eq_feed_iff.1 hk))

/-- Texts on lines of their own are blanked apart. -/
theorem blank_append_feed (t u : Text) : blank (t ++ '\n' :: u) = blank t ++ '\n' :: blank u :=
  blankFrom_append .code t u

theorem blank_ofLines (ls : List Text) : blank (Text.ofLines ls) = Text.ofLines (ls.map blank) := by
  induction ls with
  | nil => rfl
  | cons line ls ih =>
    cases ls with
    | nil => simp [Text.ofLines]
    | cons next ls =>
      simp only [Text.ofLines, List.map_cons, Text.join_cons_cons] at ih ⊢
      rw [← ih]
      exact blank_append_feed line _

/-- Every line is blanked out on its own. -/
theorem lines_blank (t : Text) : (blank t).lines = t.lines.map blank := by
  rw [← Text.ofLines_lines t, blank_ofLines, Text.ofLines_lines]
  refine Text.lines_ofLines (by simpa [Text.lines] using Text.splitWhere_ne_nil _ t) ?_
  simp only [List.forall_mem_map]
  exact fun line hline => lacks_feed_blank (Text.lacks_of_mem_lines hline)

/-- No comment is left in a text. -/
@[simp]
theorem blank_blank (t : Text) : blank (blank t) = blank t := by
  have hlines : (t.lines.map blank).map blank = t.lines.map blank := by
    simp only [List.map_map, List.map_inj_left, Function.comp_apply]
    intro line hline
    have hlacks := Text.lacks_of_mem_lines hline
    exact blank_of_not_opensAt (lacks_feed_blank hlacks) fun j =>
      (lineBlanked_blank hlacks).not_opensAt
  rw [← Text.ofLines_lines t, blank_ofLines, blank_ofLines, hlines]

/-- Line feeds stay where they are. -/
theorem feeds_blank (t : Text) : (blank t).feeds = t.feeds := by
  apply List.ext_getElem
  · simp [Text.feeds]
  · intro i hi hi'
    simp only [Text.feeds, List.length_map] at hi hi'
    have hfeed := getElem?_blank_eq_feed_iff (t := t) (i := i)
    rw [List.getElem?_eq_getElem hi, List.getElem?_eq_getElem hi', Option.some_inj,
      Option.some_inj] at hfeed
    simp only [Text.feeds, List.getElem_map]
    rwa [Bool.eq_iff_iff, beq_iff_eq, beq_iff_eq]

/-- Comments are blanked out line by line: nothing moves, line feeds stay, and each line is kept up
to the first comment on it. So a second time changes nothing, texts on lines of their own are
treated apart, every position keeps its line and its column, and a program is compiled as it is
without its comments. -/
theorem blank_line_by_line [NestingLimit] (s : Text) :
    (blank s).length = s.length ∧
    (∀ i : Nat, (blank s)[i]? = some '\n' ↔ s[i]? = some '\n') ∧
    (blank s).lines = s.lines.map blank ∧
    List.Forall₂ LineBlanked s.lines (blank s).lines ∧
    blank (blank s) = blank s ∧
    (∀ t, blank (s ++ '\n' :: t) = blank s ++ '\n' :: blank t) ∧
    (∀ (name : Text) (i : Nat), ((Source.mk name (blank s)).cursor i).location =
      ((Source.mk name s).cursor i).location) ∧
    ∀ (o : Options) (name : Text), o.compileText name (blank s) = o.compileText name s := by
  refine ⟨length_blank s, fun _ => getElem?_blank_eq_feed_iff, lines_blank s, ?_, blank_blank s,
    blank_append_feed s, fun name i => Source.location_eq_of_feeds rfl (feeds_blank s), ?_⟩
  · rw [lines_blank, List.forall₂_map_right_iff, List.forall₂_same]
    exact fun line hline => lineBlanked_blank (Text.lacks_of_mem_lines hline)
  · intro o name
    simp only [Options.compileText, Options.compile, blank_blank]

end Comment

end EventRules
