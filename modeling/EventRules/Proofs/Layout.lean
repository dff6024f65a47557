/-
# Layout

How much space stands between two tokens, and of which characters it is made up, does not matter. A
program in which one run of space is replaced by another run compiles to the same result.

A gap is a place outside quotations where a text may be broken by space. Two sources that fill the
same gap with different runs are aligned: up to the gap and behind it positions correspond, and no
parser ever stops within the space.
-/

import EventRules.Proofs.AlignedStatement
import Mathlib.Algebra.Group.Nat.Even

namespace EventRules

/-- Some space, and nothing else. -/
structure SpaceRun where
  text : Text
  ne_nil : text ≠ []
  isSpace : ∀ ch ∈ text, isSpace ch

/-- A place between two texts at which there is no space yet, and no quotation is open. -/
structure Gap where
  before : Text
  after : Text
  before_solid : ∀ ch ∈ before.getLast?, isSpace ch = false
  after_solid : after.Stops isSpace
  even_quotes : Even (before.count '"')

namespace SpaceRun

variable (w : SpaceRun)

theorem length_pos : 0 < w.text.length :=
  List.length_pos_of_ne_nil w.ne_nil

theorem breaks_append (t : Text) : Text.Breaks (w.text ++ t) := by
  obtain ⟨ch, r, hr⟩ := List.exists_cons_of_ne_nil w.ne_nil
  have hspace := w.isSpace ch (by simp [hr])
  rw [hr]
  exact Text.stops_cons.2 (by simp [hspace])

/-- The last character of a run is no closing brace. -/
theorem getLast?_or_ne (x : Option Char) : w.text.getLast?.or x ≠ some '}' := by
  rw [List.getLast?_eq_some_getLast w.ne_nil, Option.some_or]
  intro hlast
  have hspace := w.isSpace _ (List.getLast_mem w.ne_nil)
  rw [Option.some.inj hlast] at hspace
  exact absurd hspace (by decide)

end SpaceRun

namespace Gap

variable (g : Gap) (name : Text)

/-- The source that has a run of space in the gap. -/
def source (w : SpaceRun) : Source where
  name := name
  text := g.before ++ (w.text ++ g.after)

/-- The same position in two sources that fill the gap: before the gap and outside quotations, or
behind it. -/
inductive Shares (w w' : SpaceRun) : Cursor → Cursor → Prop
  | before {n : Nat} (hn : n ≤ g.before.length) (heven : Even ((g.before.take n).count '"')) :
    Shares w w' ((g.source name w).cursor n) ((g.source name w').cursor n)
  | after {n : Nat} (hn : n ≤ g.after.length) :
    Shares w w' ((g.source name w).cursor (g.before.length + w.text.length + n))
      ((g.source name w').cursor (g.before.length + w'.text.length + n))

section Positions

variable (w : SpaceRun) {n : Nat}

theorem length_source :
    (g.source name w).text.length = g.before.length + w.text.length + g.after.length :=
  Source.length_around name g.before w.text g.after

theorem rest_before (hn : n ≤ g.before.length) :
    ((g.source name w).cursor n).rest = g.before.drop n ++ (w.text ++ g.after) :=
  Source.rest_around_before name g.before w.text g.after hn

theorem rest_after :
    ((g.source name w).cursor (g.before.length + w.text.length + n)).rest = g.after.drop n :=
  Source.rest_around_after name g.before w.text g.after

theorem take_after :
    (g.source name w).text.take (g.before.length + w.text.length + n) =
      g.before ++ (w.text ++ g.after.take n) :=
  Source.take_around_after name g.before w.text g.after

/-- Space that starts before the gap ends there too, unless it starts at the gap. -/
theorem takeWhile_before (hn : n < g.before.length) (t : Text) :
    (g.before.drop n ++ t).takeWhile isSpace = (g.before.drop n).takeWhile isSpace := by
  have hne : g.before.drop n ≠ [] := by
    rw [Ne, List.drop_eq_nil_iff]
    omega
  refine Text.takeWhile_append_of_last hne ?_ t
  rw [List.getLast?_drop, if_neg (by omega)]
  exact g.before_solid

/-- At the gap, its space is skipped. -/
theorem skipSpace_gap :
    ((g.source name w).cursor g.before.length).skipSpace =
      (g.source name w).cursor (g.before.length + w.text.length + 0) := by
  have hrest := g.rest_before name w (Nat.le_refl g.before.length)
  rw [List.drop_length, List.nil_append] at hrest
  rw [Cursor.skipSpace_of_rest hrest w.isSpace g.after_solid, Source.advance_cursor]
  · rfl
  · rw [length_source]
    omega

end Positions

namespace Shares

variable {g name} {w w' : SpaceRun} {c d c' d' : Cursor}

protected theorem symm (h : g.Shares name w w' c d) : g.Shares name w' w d c := by
  cases h with
  | before hn heven => exact .before hn heven
  | after hn => exact .after hn

/-- Before the gap, both positions move along as far as no quotation starts. -/
theorem advance_before {n k : Nat} (hk : n + k ≤ g.before.length)
    (heven : Even ((g.before.take n).count '"')) (hquote : '"' ∉ (g.before.drop n).take k) :
    g.Shares name w w' (((g.source name w).cursor n).advance k)
      (((g.source name w').cursor n).advance k) := by
  rw [Source.advance_cursor _ (by rw [length_source]; omega),
    Source.advance_cursor _ (by rw [length_source]; omega)]
  refine .before hk ?_
  rwa [List.take_add, List.count_append, List.count_eq_zero.2 hquote, Nat.add_zero]

/-- Behind the gap, positions advance alike. -/
theorem advance_after {n k : Nat} (hk : n + k ≤ g.after.length) :
    g.Shares name w w'
      (((g.source name w).cursor (g.before.length + w.text.length + n)).advance k)
      (((g.source name w').cursor (g.before.length + w'.text.length + n)).advance k) := by
  rw [Source.advance_cursor _ (by rw [length_source]; omega),
    Source.advance_cursor _ (by rw [length_source]; omega), Nat.add_assoc _ n, Nat.add_assoc _ n]
  exact .after hk

/-- The texts ahead agree up to the gap, or to the end. -/
theorem overlap (h : g.Shares name w w' c d) : ∃ u v v', c.rest = u ++ v ∧ d.rest = u ++ v' ∧
    Text.Breaks v ∧ Text.Breaks v' ∧
    ∀ k ≤ u.length, '"' ∉ u.take k → g.Shares name w w' (c.advance k) (d.advance k) := by
  cases h with
  | @before n hn heven =>
    refine ⟨_, _, _, g.rest_before name w hn, g.rest_before name w' hn, w.breaks_append _,
      w'.breaks_append _, fun k hk hquote => advance_before ?_ heven hquote⟩
    rw [List.length_drop] at hk
    omega
  | @after n hn =>
    refine ⟨g.after.drop n, [], [], ?_, ?_, nofun, nofun, fun k hk _ => advance_after ?_⟩
    · rw [rest_after, List.append_nil]
    · rw [rest_after, List.append_nil]
    · rw [List.length_drop] at hk
      omega

/-- Skipping space leads over the gap as a whole. -/
theorem skipSpace (h : g.Shares name w w' c d) : g.Shares name w w' c.skipSpace d.skipSpace := by
  cases h with
  | @before n hn heven =>
    rcases Nat.lt_or_eq_of_le hn with hlt | rfl
    · have hle := (List.takeWhile_prefix (l := g.before.drop n) isSpace).length_le
      rw [List.length_drop] at hle
      rw [Cursor.skipSpace, Cursor.skipSpace, g.rest_before name w hn, g.rest_before name w' hn,
        g.takeWhile_before hlt, g.takeWhile_before hlt]
      refine advance_before (by omega) heven ?_
      rw [← List.prefix_iff_eq_take.1 (List.takeWhile_prefix isSpace)]
      intro hquote
      exact absurd (List.mem_takeWhile_imp hquote) (by decide)
    · rw [skipSpace_gap, skipSpace_gap]
      exact .after (Nat.zero_le _)
  | @after n hn =>
    have hle := (List.takeWhile_prefix (l := g.after.drop n) isSpace).length_le
    rw [List.length_drop] at hle
    rw [Cursor.skipSpace, Cursor.skipSpace, rest_after, rest_after]
    exact advance_after (by omega)

/-- A quotation that starts before the gap ends before it, since no quotation is open at the gap. -/
theorem quotation_before {n : Nat} {t r v : Text} (heven : Even ((g.before.take n).count '"'))
    (hv : v.Breaks) (hrest : g.before.drop n ++ v = '"' :: (t ++ '"' :: r)) (hquote : '"' ∉ t) :
    '"' :: (t ++ ['"']) <+: g.before.drop n := by
  have hsum : (g.before.take n).count '"' + (g.before.drop n).count '"' = g.before.count '"' := by
    rw [← List.count_append, List.take_append_drop]
  have hcount : Even ((g.before.drop n).count '"') :=
    (Nat.even_add.1 (hsum ▸ g.even_quotes)).1 heven
  have hprefix : '"' :: (t ++ ['"']) <+: g.before.drop n ++ v := ⟨r, by rw [hrest]; simp⟩
  rcases List.prefix_or_prefix_of_prefix hprefix (List.prefix_append _ _) with h | h
  · exact h
  · rcases List.prefix_cons_iff.1 h with hnil | ⟨q, hq, hqt⟩
    · rw [hnil, List.nil_append] at hrest
      rw [hrest] at hv
      exact absurd (Text.stops_cons.1 hv) (by decide)
    · rcases List.prefix_concat_iff.1 hqt with rfl | hqt
      · rw [hq]
      · have hnone : q.count '"' = 0 := List.count_eq_zero.2 fun hmem => hquote (hqt.subset hmem)
        rw [hq, List.count_cons_self, hnone] at hcount
        exact absurd hcount (by decide)

/-- A quotation does not reach over the gap, since its two double quotes stand on one side of it. -/
theorem quotation {t r : Text} (h : g.Shares name w w' c d)
    (hc : c.rest = '"' :: (t ++ '"' :: r)) (hquote : '"' ∉ t) :
    (∃ s, d.rest = '"' :: (t ++ '"' :: s)) ∧
      g.Shares name w w' (c.advance (t.length + 2)) (d.advance (t.length + 2)) := by
  have hlength : ('"' :: (t ++ ['"'])).length = t.length + 2 := by simp
  cases h with
  | @before n hn heven =>
    rw [g.rest_before name w hn] at hc
    have hprefix := quotation_before heven (w.breaks_append _) hc hquote
    obtain ⟨s, hs⟩ := hprefix
    have hle : n + (t.length + 2) ≤ g.before.length := by
      have hdrop := congrArg List.length hs
      rw [List.length_append, hlength, List.length_drop] at hdrop
      omega
    refine ⟨⟨s ++ (w'.text ++ g.after), ?_⟩, ?_⟩
    · rw [g.rest_before name w' hn, ← hs]
      simp
    · rw [Source.advance_cursor _ (by rw [length_source]; omega),
        Source.advance_cursor _ (by rw [length_source]; omega)]
      refine .before hle ?_
      rw [List.take_add, List.count_append, ← hlength, ← hs, List.take_left, List.count_cons_self,
        List.count_append, List.count_eq_zero.2 hquote]
      exact heven.add (by decide)
  | @after n hn =>
    rw [rest_after] at hc
    refine ⟨⟨r, by rw [rest_after, hc]⟩, advance_after ?_⟩
    have hdrop := congrArg List.length hc
    simp only [List.length_drop, List.length_cons, List.length_append] at hdrop
    omega

/-- Behind the gap there is text or the space of the gap, which is no brace. -/
theorem brace (h : g.Shares name w w' c d) :
    c.previous? = some '}' ↔ d.previous? = some '}' := by
  cases h with
  | @before n hn heven =>
    rw [Source.previous?_cursor _ (by rw [length_source]; omega),
      Source.previous?_cursor _ (by rw [length_source]; omega), source, source,
      List.take_append_of_le_length hn, List.take_append_of_le_length hn]
  | @after n hn =>
    rw [Source.previous?_cursor _ (by rw [length_source]; omega),
      Source.previous?_cursor _ (by rw [length_source]; omega), take_after, take_after,
      List.getLast?_append, List.getLast?_append, List.getLast?_append, List.getLast?_append]
    cases (g.after.take n).getLast? with
    | some ch => rfl
    | none => simp [w.getLast?_or_ne, w'.getLast?_or_ne]

/-- Past the space at both positions, the same character comes next. -/
theorem peek_skipSpace (h : g.Shares name w w' c d) : d.skipSpace.peek = c.skipSpace.peek := by
  simp only [Cursor.peek, Cursor.rest_skipSpace]
  cases h with
  | @before n hn heven =>
    have hfill (r : SpaceRun) : (g.before.drop n ++ (r.text ++ g.after)).dropWhile isSpace =
        if ((g.before.drop n).dropWhile isSpace).isEmpty then g.after.dropWhile isSpace
        else (g.before.drop n).dropWhile isSpace ++ (r.text ++ g.after) := by
      rw [List.dropWhile_append, List.dropWhile_append_of_pos r.isSpace]
    rw [g.rest_before name w hn, g.rest_before name w' hn, hfill, hfill]
    cases (g.before.drop n).dropWhile isSpace <;> rfl
  | @after n hn => rw [rest_after, rest_after]

/-- The gap is not empty in either source, so the way over it is an advance in both. -/
theorem progress (h : g.Shares name w w' c d) (h' : g.Shares name w w' c' d') :
    c'.remaining < c.remaining ↔ d'.remaining < d.remaining := by
  have hpos := w.length_pos
  have hpos' := w'.length_pos
  cases h <;> cases h' <;>
    · simp (disch := (simp only [length_source]; omega)) only [Source.remaining_cursor,
        length_source]
      omega

end Shares

/-- Two sources that fill the same gap are aligned. -/
def alignment (w w' : SpaceRun) : Alignment where
  Rel := g.Shares name w w'
  overlap h := h.overlap
  skipSpace h _ := h.skipSpace
  quotation h hc hquote := h.quotation hc hquote
  brace h := h.brace
  semicolon h := by rw [h.peek_skipSpace]
  progress h h' := h.progress h'

/-- A run over a source with one gap filled goes as the run over the source with another filling. -/
theorem outcome_run_eq [NestingLimit] {w w' : SpaceRun} {p q : Progress}
    (h : (p.run (g.source name w).start).outcome = .ok q) :
    (p.run (g.source name w').start).outcome = .ok q := by
  have hstart : g.Shares name w w' (g.source name w).start (g.source name w').start :=
    .before (Nat.zero_le _) (by simp)
  obtain ⟨c, d, hrel, hend, hrun⟩ := Progress.run_follows (S := g.alignment name w w') hstart h
  -- at the end of one source, only space is left of the other
  have hd : ¬ d.Live := fun hlive =>
    hend (Alignment.live (S := g.alignment name w' w) hrel.symm hlive)
  rw [hrun, Progress.outcome_run, if_pos (Cursor.atEnd_skipSpace_iff.2 hd)]

end Gap

namespace Options

/-- Where comments have been removed, one run of space outside quotations may be replaced by any
other: the program compiles to the same result, under all options. -/
theorem compileText_respaced [NestingLimit] (o : Options) (name a w w' b : Text) (p : Program)
    (hw : w ≠ []) (hw' : w' ≠ []) (hspace : ∀ ch ∈ w, isSpace ch) (hspace' : ∀ ch ∈ w', isSpace ch)
    (ha : ∀ ch ∈ a.getLast?, isSpace ch = false) (hb : ∀ ch ∈ b.head?, isSpace ch = false)
    (hquotes : Even (a.count '"'))
    (ht : Comment.blank (a ++ w ++ b) = a ++ w ++ b)
    (ht' : Comment.blank (a ++ w' ++ b) = a ++ w' ++ b)
    (hp : (o.compileText name (a ++ w ++ b)).outcome = .ok p) :
    (o.compileText name (a ++ w' ++ b)).outcome = .ok p := by
  let g : Gap := ⟨a, b, ha, hb, hquotes⟩
  have hsource (r : SpaceRun) (n : Text)
      (hr : Comment.blank (a ++ r.text ++ b) = a ++ r.text ++ b) :
      bare ⟨n, a ++ r.text ++ b⟩ = g.source n r := by
    rw [bare, hr, List.append_assoc]
    rfl
  rw [compileText] at hp ⊢
  generalize (if name.isEmpty then o.name else name) = n at hp ⊢
  rw [outcome_compile, hsource ⟨w, hw, hspace⟩ n ht] at hp
  rw [outcome_compile, hsource ⟨w', hw', hspace'⟩ n ht']
  obtain ⟨q, hq, rfl⟩ := map_eq_ok.1 hp
  rw [g.outcome_run_eq n hq]
  rfl

/-- The space before a condition may as well be a line break and a tab. The quotation before it has
a space of its own, which stays. -/
theorem compileText_respaced_condition :
    let o : Options := { eventCodes := false }
    let a : Text := "const c = \"a b\"; send 1~u16 from 2~u16 to 3~u16 if"
    let b : Text := "match tick;"
    ∃ p, (o.compileText "" (a ++ " " ++ b)).outcome = .ok p ∧
      p.constants.get? "c" = some (.string "a b") ∧ p.config.processors.length = 1 ∧
      (o.compileText "" (a ++ "\r\n\t" ++ b)).outcome = .ok p := by
  intro o a b
  obtain ⟨p, hp, hparts⟩ := exists_of_toOption_map
    (f := fun p : Program => (p.constants.get? "c", p.config.processors.length))
    (b := (some (.string "a b"), 1)) (x := (o.compileText "" (a ++ " " ++ b)).outcome)
    (by decide +kernel)
  obtain ⟨hconstant, hcount⟩ := Prod.mk.inj hparts
  have ha : ∀ ch ∈ a.getLast?, isSpace ch = false := by
    intro ch hch
    obtain rfl : 'f' = ch := Option.some.inj hch
    rfl
  have hb : ∀ ch ∈ b.head?, isSpace ch = false := by
    intro ch hch
    obtain rfl : 'm' = ch := Option.some.inj hch
    rfl
  exact ⟨p, hp, hconstant, hcount, compileText_respaced o "" a " " "\r\n\t" b p (by decide)
    (by decide) (by decide) (by decide) ha hb (by decide) (by decide +kernel)
    (by decide +kernel) hp⟩

end Options

end EventRules
