/-
# Lines and columns

The lines of a text are the pieces between its line feeds. What lies behind a position consists of
whole lines, each with its line feed, and of the start of one more line. The line and the column of
the position count these: the whole lines, and the characters on the line that is not yet complete.

So the offset can be told from the line and the column. Every line and column of the text belongs to
one position, and a later position has a later line or, on the same line, a later column.
-/

import EventRules.Proofs.Cursor
import EventRules.Proofs.Text
import Mathlib.Data.Prod.Lex

namespace EventRules

namespace Text

variable {t u last last' : Text} {whole whole' ls : List Text} {n : Nat}

/-! ### The lines of a text -/

/-- The lines of a text, without the line feeds between them. -/
def lines (t : Text) : List Text :=
  t.splitWhere (· = '\n')

/-- The length of lines that end with a line feed each. -/
def lengthOfWhole (whole : List Text) : Nat :=
  (whole.flatMap (· ++ ['\n'])).length

/-- The offset at which a line starts that `n` others come before. -/
def lineStart (t : Text) (n : Nat) : Nat :=
  lengthOfWhole (t.lines.take n)

@[simp]
theorem ofLines_lines (t : Text) : ofLines t.lines = t :=
  join_splitWhere '\n' t

/-- A line feed ends every line before a given one, and starts every line behind it. -/
theorem ofLines_append_cons (whole : List Text) (line : Text) (rest : List Text) :
    ofLines (whole ++ line :: rest) =
      whole.flatMap (· ++ ['\n']) ++ (line ++ rest.flatMap (['\n'] ++ ·)) := by
  induction whole with
  | nil => exact join_cons ['\n'] line rest
  | cons first whole ih =>
    rw [List.flatMap_cons, List.append_assoc, ← ih]
    cases whole <;> simp [ofLines, join_cons_cons]

/-- Lines that are put together are the lines of the whole. -/
theorem lines_ofLines (hne : ls ≠ []) (h : ∀ line ∈ ls, Lacks '\n' line) :
    (ofLines ls).lines = ls := by
  have hfeed : decide ('\n' = '\n') = true := by decide
  refine splitWhere_join hfeed hne ?_
  intro line hline c hc hfeed
  exact h line hline (of_decide_eq_true hfeed ▸ hc)

theorem lines_of_lacks (h : Lacks '\n' t) : t.lines = [t] := by
  refine splitWhere_eq_singleton ?_
  intro c hc hfeed
  exact h (of_decide_eq_true hfeed ▸ hc)

/-- The first line feed ends the first line. -/
theorem lines_append_feed (h : Lacks '\n' t) (u : Text) :
    lines (t ++ '\n' :: u) = t :: u.lines := by
  refine splitWhere_append_cons ?_ (by simp)
  intro c hc hfeed
  exact h (of_decide_eq_true hfeed ▸ hc)

/-- The text is made up of whole lines, each with its line feed, and of a last line. -/
structure LineCut (t : Text) (whole : List Text) (last : Text) : Prop where
  eq : t = whole.flatMap (· ++ ['\n']) ++ last
  lacks : ∀ line ∈ whole, Lacks '\n' line
  lacks_last : Lacks '\n' last

/-- Every text is cut into lines. -/
theorem exists_lineCut (t : Text) : ∃ whole last, LineCut t whole last := by
  induction t with
  | nil => exact ⟨[], [], rfl, List.forall_mem_nil _, List.not_mem_nil⟩
  | cons c t ih =>
    obtain ⟨whole, last, rfl, hwhole, hlast⟩ := ih
    by_cases hc : c = '\n'
    · refine ⟨[] :: whole, last, by simp [hc], ?_, hlast⟩
      exact List.forall_mem_cons.2 ⟨List.not_mem_nil, hwhole⟩
    · cases whole with
      | nil => exact ⟨[], c :: last, rfl, List.forall_mem_nil _, hlast.cons hc⟩
      | cons line whole =>
        rw [List.forall_mem_cons] at hwhole
        refine ⟨(c :: line) :: whole, last, by simp, ?_, hlast⟩
        exact List.forall_mem_cons.2 ⟨hwhole.1.cons hc, hwhole.2⟩

namespace LineCut

/-- Behind whole lines, the lines of a text go on. -/
theorem lines_append (h : LineCut t whole last) (u : Text) :
    lines (t ++ u) = whole ++ lines (last ++ u) := by
  obtain ⟨rfl, hwhole, -⟩ := h
  induction whole with
  | nil => rfl
  | cons line whole ih =>
    rw [List.forall_mem_cons] at hwhole
    simpa [lines_append_feed hwhole.1] using ih hwhole.2

/-- The whole lines and the last one are the lines of the text. -/
theorem lines_eq (h : LineCut t whole last) : t.lines = whole ++ [last] := by
  simpa [lines_of_lacks h.lacks_last] using h.lines_append []

theorem count_eq (h : LineCut t whole last) : t.count '\n' = whole.length := by
  obtain ⟨rfl, hwhole, hlast⟩ := h
  rw [List.count_append, List.count_eq_zero.2 hlast, Nat.add_zero]
  induction whole with
  | nil => rfl
  | cons line whole ih =>
    rw [List.forall_mem_cons] at hwhole
    simp [List.count_eq_zero.2 hwhole.1, ih hwhole.2]

/-- A text is as long as its whole lines and its last one. -/
theorem length_eq (h : LineCut t whole last) : t.length = lengthOfWhole whole + last.length := by
  rw [h.eq, List.length_append, lengthOfWhole]

/-- Before the end of a text, its last line is found up to the line feed. -/
theorem takeWhile_reverse (h : LineCut t whole last) :
    t.reverse.takeWhile (· ≠ '\n') = last.reverse := by
  have hlast : ∀ c ∈ last.reverse, decide (c ≠ '\n') = true := by
    intro c hc
    rw [decide_eq_true_iff]
    rintro rfl
    exact h.lacks_last (List.mem_reverse.1 hc)
  rw [h.eq, List.reverse_append, List.takeWhile_append_of_pos hlast]
  cases whole using List.reverseRecOn <;> simp

/-- On the last line, a text without line feeds follows. -/
theorem append_lacks (h : LineCut t whole last) (hu : Lacks '\n' u) :
    LineCut (t ++ u) whole (last ++ u) where
  eq := by rw [h.eq, List.append_assoc]
  lacks := h.lacks
  lacks_last := h.lacks_last.append hu

/-- A text with more lines follows, the first of which goes on with the last line. -/
theorem append_cons {first : Text} (h : LineCut t whole last)
    (h' : LineCut u (first :: whole') last') :
    LineCut (t ++ u) (whole ++ (last ++ first) :: whole') last' where
  eq := by simp [h.eq, h'.eq]
  lacks := by
    have hfirst := List.forall_mem_cons.1 h'.lacks
    simp only [List.forall_mem_append, List.forall_mem_cons]
    exact ⟨h.lacks, h.lacks_last.append hfirst.1, hfirst.2⟩
  lacks_last := h'.lacks_last

end LineCut

theorem lacks_of_mem_lines {line : Text} (h : line ∈ t.lines) : Lacks '\n' line := by
  obtain ⟨whole, last, hcut⟩ := exists_lineCut t
  rw [hcut.lines_eq, List.mem_append, List.mem_singleton] at h
  rcases h with h | rfl
  · exact hcut.lacks line h
  · exact hcut.lacks_last

/-- What follows on a line makes that line longer, and further lines follow it. -/
theorem exists_lines_append (h : Lacks '\n' last) (u : Text) :
    ∃ first rest, lines (last ++ u) = (last ++ first) :: rest := by
  have hcut : LineCut last [] last := ⟨rfl, List.forall_mem_nil _, h⟩
  obtain ⟨whole, last', hu⟩ := exists_lineCut u
  cases whole with
  | nil =>
    obtain rfl : u = last' := hu.eq
    exact ⟨u, [], (hcut.append_lacks hu.lacks_last).lines_eq⟩
  | cons first whole => exact ⟨first, _, (hcut.append_cons hu).lines_eq⟩

/-- Up to a place on one of its lines, a text is cut at the same line feeds. -/
theorem lineCut_take {line : Text} {rest : List Text} {k : Nat}
    (h : t.lines = whole ++ line :: rest) (hk : k ≤ line.length) :
    lengthOfWhole whole + k ≤ t.length ∧
      LineCut (t.take (lengthOfWhole whole + k)) whole (line.take k) := by
  have hlacks : ∀ l ∈ whole ++ line :: rest, Lacks '\n' l := fun l hl =>
    lacks_of_mem_lines (h ▸ hl)
  rw [List.forall_mem_append, List.forall_mem_cons] at hlacks
  have htext := ofLines_append_cons whole line rest
  rw [← h, ofLines_lines] at htext
  constructor
  · rw [htext, lengthOfWhole, List.length_append, List.length_append]
    omega
  · refine ⟨?_, hlacks.1, fun hmem => hlacks.2.1 (List.mem_of_mem_take hmem)⟩
    rw [htext, lengthOfWhole, List.take_length_add_append, List.take_append_of_le_length hk]

/-- Which characters of a text are line feeds. -/
def feeds (t : Text) : List Bool :=
  t.map (· == '\n')

theorem count_feed (t : Text) : t.count '\n' = t.feeds.count true := by
  rw [feeds, List.count_eq_countP, List.count_eq_countP, List.countP_map]
  congr 1
  funext c
  simp

theorem length_takeWhile_reverse (t : Text) :
    (t.reverse.takeWhile (· ≠ '\n')).length = (t.feeds.reverse.takeWhile (!·)).length := by
  rw [feeds, ← List.map_reverse, List.takeWhile_map, List.length_map]
  congr 2
  funext c
  simp [beq_eq_decide]

end Text

/-! ### Lines and columns of positions -/

/-- Line and column, in the order of lines and then of columns. -/
def Location.position (l : Location) : ℕ ×ₗ ℕ :=
  toLex (l.line, l.column)

/-- The source has the line, and the column is that of one of its characters or lies right behind
the last one. -/
structure Location.LiesIn (s : Source) (l : Location) : Prop where
  name_eq : l.name = s.name
  line_pos : 1 ≤ l.line
  column_pos : 1 ≤ l.column
  column_le : ∃ line, s.text.lines[l.line - 1]? = some line ∧ l.column ≤ line.length + 1

namespace Source

variable {s s' : Source} {i j : Nat} {whole : List Text} {last : Text}

/-- Lines and columns count from one what lies behind. -/
theorem location_cursor (hi : i ≤ s.text.length)
    (h : Text.LineCut (s.text.take i) whole last) :
    (s.cursor i).location = ⟨s.name, whole.length + 1, last.length + 1⟩ := by
  have hoffset : i = Text.lengthOfWhole whole + last.length := by
    rw [← h.length_eq, List.length_take_of_le hi]
  change Location.mk _ _ _ = _
  rw [show (s.cursor i).source = s from rfl, show (s.cursor i).offset = i from rfl,
    h.takeWhile_reverse, h.count_eq, h.length_eq, List.length_reverse, hoffset]
  simp

/-- The offset is told from the line and the column. -/
theorem offset_eq_of_location (hi : i ≤ s.text.length) :
    i = s.text.lineStart ((s.cursor i).location.line - 1) + (s.cursor i).location.column - 1 := by
  obtain ⟨whole, last, hcut⟩ := Text.exists_lineCut (s.text.take i)
  have hlines : s.text.lines = whole ++ Text.lines (last ++ s.text.drop i) := by
    rw [← hcut.lines_append, List.take_append_drop]
  have hlength := hcut.length_eq
  rw [List.length_take_of_le hi] at hlength
  rw [location_cursor hi hcut, Text.lineStart, hlines]
  simpa using hlength

/-- A later position has a later line, or a later column on the same line. -/
theorem position_lt (hij : i < j) (hj : j ≤ s.text.length) :
    (s.cursor i).location.position < (s.cursor j).location.position := by
  obtain ⟨whole, last, hcut⟩ := Text.exists_lineCut (s.text.take i)
  obtain ⟨u, hu⟩ : ∃ u, s.text.take j = s.text.take i ++ u :=
    ⟨_, (List.take_append_drop i _).symm.trans (by rw [List.take_take, Nat.min_eq_left hij.le])⟩
  have hlength : j = i + u.length := by
    rw [← List.length_take_of_le hj, hu, List.length_append,
      List.length_take_of_le (hij.le.trans hj)]
  obtain ⟨whole', last', hcut'⟩ := Text.exists_lineCut u
  rw [Location.position, Location.position, location_cursor (hij.le.trans hj) hcut,
    Prod.Lex.toLex_lt_toLex]
  cases whole' with
  | nil =>
    obtain rfl : u = last' := hcut'.eq
    rw [location_cursor hj (hu ▸ hcut.append_lacks hcut'.lacks_last), List.length_append]
    exact .inr ⟨rfl, by simp; omega⟩
  | cons first whole' =>
    rw [location_cursor hj (hu ▸ hcut.append_cons hcut'), List.length_append]
    exact .inl (by simp)

/-- A position in a source is located on a line that the source has. -/
theorem liesIn_location (hi : i ≤ s.text.length) : (s.cursor i).location.LiesIn s := by
  obtain ⟨whole, last, hcut⟩ := Text.exists_lineCut (s.text.take i)
  obtain ⟨first, rest, hlast⟩ := Text.exists_lines_append hcut.lacks_last (s.text.drop i)
  have hlines : s.text.lines = whole ++ (last ++ first) :: rest := by
    rw [← hlast, ← hcut.lines_append, List.take_append_drop]
  rw [location_cursor hi hcut]
  refine ⟨rfl, Nat.le_add_left .., Nat.le_add_left .., last ++ first, ?_, ?_⟩
  · simp [hlines]
  · simp

/-- Every line and column of a source belongs to a position. -/
theorem exists_of_liesIn {l : Location} (h : l.LiesIn s) :
    ∃ i ≤ s.text.length, (s.cursor i).location = l := by
  obtain ⟨hname, hline, hcolumn, line, hget, hle⟩ := h
  have hlt : l.line - 1 < s.text.lines.length := (List.getElem?_eq_some_iff.1 hget).1
  have hlines : s.text.lines =
      s.text.lines.take (l.line - 1) ++ line :: s.text.lines.drop (l.line - 1 + 1) := by
    rw [← (List.getElem?_eq_some_iff.1 hget).2, List.cons_getElem_drop_succ,
      List.take_append_drop]
  have hk : l.column - 1 ≤ line.length := by omega
  obtain ⟨hi, hcut⟩ := Text.lineCut_take hlines hk
  refine ⟨_, hi, ?_⟩
  rw [location_cursor hi hcut, List.length_take_of_le hk, List.length_take_of_le hlt.le, ← hname,
    Nat.sub_add_cancel hline, Nat.sub_add_cancel hcolumn]

/-- Lines and columns depend on line feeds only. -/
theorem location_eq_of_feeds (hname : s.name = s'.name) (h : s.text.feeds = s'.text.feeds) :
    (s.cursor i).location = (s'.cursor i).location := by
  have htake : Text.feeds (s.text.take i) = Text.feeds (s'.text.take i) := by
    simp only [Text.feeds, List.map_take] at h ⊢
    rw [h]
  have hlength : (s.text.take i).length = (s'.text.take i).length := by
    simpa [Text.feeds] using congrArg List.length htake
  simp only [Cursor.location, cursor, hname, hlength, Text.count_feed,
    Text.length_takeWhile_reverse, htake]

/-- Lines and columns number the positions of a source, in their order: each position has a line
and a column, both from one on, from which its offset is told; a later position has a later line or,
on the same line, a later column; and every line and column of the source is that of a position. -/
theorem locations_in_order (s : Source) :
    (∀ i ≤ s.text.length,
      let l := (s.cursor i).location
      1 ≤ l.line ∧ 1 ≤ l.column ∧ i = s.text.lineStart (l.line - 1) + l.column - 1) ∧
    (∀ i j, i < j → j ≤ s.text.length →
      (s.cursor i).location.position < (s.cursor j).location.position) ∧
    ∀ l : Location, (∃ i ≤ s.text.length, (s.cursor i).location = l) ↔ l.LiesIn s := by
  refine ⟨fun i hi => ?_, fun i j => position_lt, fun l => ⟨?_, exists_of_liesIn⟩⟩
  · have hlies := liesIn_location hi
    exact ⟨hlies.line_pos, hlies.column_pos, offset_eq_of_location hi⟩
  · rintro ⟨i, hi, rfl⟩
    exact liesIn_location hi

/-- An empty line between two others: the position on it, and the one behind it. -/
theorem locations_in_order_empty_line :
    let s : Source := ⟨[], "a\n\nb"⟩
    2 = s.text.lineStart ((s.cursor 2).location.line - 1) + (s.cursor 2).location.column - 1 ∧
      (s.cursor 2).location.position < (s.cursor 3).location.position := by
  intro s
  have h := locations_in_order s
  exact ⟨(h.1 2 (by decide)).2.2, h.2.1 2 3 (by decide) (by decide)⟩

end Source

end EventRules
