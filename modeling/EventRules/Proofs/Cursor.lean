/-
# Movement of cursors

A cursor moves through its source by advancing, and two advances are one. A cursor leads to another
when the other is reached by standing still or by one advance; this is how every parser that
succeeds moves its cursor.
-/

import EventRules.Grammar.Token
import Mathlib.Data.List.DropRight
import Mathlib.Tactic.Common

namespace EventRules

/-- What lies beyond the longest run of a class of characters. -/
theorem Text.drop_length_takeWhile (p : Char → Bool) (t : Text) :
    t.drop (t.takeWhile p).length = t.dropWhile p := by
  have happend := List.takeWhile_append_dropWhile (p := p) (l := t)
  exact (congrArg (List.drop _) happend.symm).trans List.drop_left

namespace Cursor

variable {c d e : Cursor}

theorem length_rest (c : Cursor) : c.rest.length = c.source.text.length - c.offset := by
  rw [c.rest_eq, List.length_drop]

/-- A cursor lies in its source when its offset does not exceed the length of the source. -/
theorem inSource_iff : c.inSource ↔ c.offset ≤ c.source.text.length := by
  have hlength := c.length_rest
  rw [inSource, Bool.or_eq_true, decide_eq_true_iff]
  constructor
  · rintro (h | h)
    · have : c.rest.length ≠ 0 := by
        rw [Ne, List.length_eq_zero_iff]
        intro e
        simp [e] at h
      omega
    · exact h
  · exact .inr

/-- Something lies ahead only within the source. -/
theorem inSource_of_rest_ne_nil (h : c.rest ≠ []) : c.inSource := by
  have hlength := c.length_rest
  have : c.rest.length ≠ 0 := by rwa [Ne, List.length_eq_zero_iff]
  rw [inSource_iff]
  omega

theorem inSource_advance (c : Cursor) (n : Nat) : (c.advance n).inSource := by
  rw [inSource_iff, offset_advance, source_advance]
  omega

theorem inSource_start (s : Source) : s.start.inSource :=
  inSource_iff.2 (Nat.zero_le _)

/-- Two advances are one. -/
@[simp]
theorem advance_advance (c : Cursor) (m n : Nat) : (c.advance m).advance n = c.advance (m + n) := by
  ext1
  · rfl
  · simp only [offset_advance, source_advance]
    omega

/-- Within the source, the advance by nothing stands still. -/
theorem advance_zero (h : c.inSource) : c.advance 0 = c := by
  rw [inSource_iff] at h
  ext1
  · rfl
  · rw [offset_advance]
    omega

/-- Within the source, what remains is the text ahead. -/
theorem remaining_eq (h : c.inSource) : c.remaining = c.rest.length := by
  rw [inSource_iff] at h
  rw [remaining]
  omega

theorem remaining_advance (c : Cursor) (n : Nat) :
    (c.advance n).remaining = c.rest.length - n := by
  rw [remaining_eq (c.inSource_advance n), rest_advance, List.length_drop]

theorem remaining_advance_le (c : Cursor) (n : Nat) : (c.advance n).remaining ≤ c.remaining := by
  rw [remaining_advance, remaining]
  omega

/-- Behind a cursor that has passed over a text lies the last character of the text. -/
theorem previous?_advance {u v : Text} (hu : u ≠ [])
    (hrest : c.rest = u ++ v) : (c.advance u.length).previous? = u.getLast? := by
  have hpos := List.length_pos_of_ne_nil hu
  have hlength := c.length_rest
  rw [hrest, List.length_append] at hlength
  have hoffset : (c.advance u.length).offset = c.offset + u.length := by
    rw [offset_advance]
    omega
  have hbehind : c.source.text[c.offset + (u.length - 1)]? = (u ++ v)[u.length - 1]? := by
    rw [← hrest, c.rest_eq, List.getElem?_drop]
  rw [previous?, hoffset, if_neg (by omega), source_advance, Nat.add_sub_assoc hpos, hbehind,
    List.getElem?_append_left (by omega), List.getLast?_eq_getElem?]

/-! ### Space -/

@[simp]
theorem source_skipSpace (c : Cursor) : c.skipSpace.source = c.source := rfl

@[simp]
theorem rest_skipSpace (c : Cursor) : c.skipSpace.rest = c.rest.dropWhile isSpace := by
  rw [skipSpace, rest_advance, Text.drop_length_takeWhile]

theorem inSource_skipSpace (c : Cursor) : c.skipSpace.inSource :=
  c.inSource_advance _

/-- Where no space stands, skipping it stands still. -/
theorem skipSpace_eq_self (h : c.inSource) (hrest : c.rest.dropWhile isSpace = c.rest) :
    c.skipSpace = c := by
  have hempty : c.rest.takeWhile isSpace = [] := by
    have happend := List.takeWhile_append_dropWhile (p := isSpace) (l := c.rest)
    rw [hrest] at happend
    exact List.append_left_eq_self.1 happend
  rw [skipSpace, hempty, List.length_nil, advance_zero h]

@[simp]
theorem skipSpace_skipSpace (c : Cursor) : c.skipSpace.skipSpace = c.skipSpace :=
  skipSpace_eq_self c.inSource_skipSpace (by rw [rest_skipSpace, List.dropWhile_idempotent])

/-- Space may be skipped in two parts. -/
theorem skipSpace_advance {k : Nat} (hk : k ≤ c.rest.length)
    (hspace : ∀ ch ∈ c.rest.take k, isSpace ch) : (c.advance k).skipSpace = c.skipSpace := by
  have htake : c.rest.takeWhile isSpace =
      c.rest.take k ++ (c.rest.drop k).takeWhile isSpace := by
    conv_lhs => rw [← List.take_append_drop k c.rest]
    exact List.takeWhile_append_of_pos hspace
  rw [skipSpace, advance_advance, rest_advance, skipSpace, htake, List.length_append,
    List.length_take, Nat.min_eq_left hk]

/-! ### The order of positions -/

/-- The second cursor is the first one or an advance of it. -/
def Leads (c d : Cursor) : Prop :=
  d = c ∨ ∃ n, d = c.advance n

theorem Leads.refl (c : Cursor) : c.Leads c :=
  .inl rfl

theorem leads_advance (c : Cursor) (n : Nat) : c.Leads (c.advance n) :=
  .inr ⟨n, rfl⟩

theorem leads_skipSpace (c : Cursor) : c.Leads c.skipSpace :=
  c.leads_advance _

theorem Leads.trans (h : c.Leads d) (h' : d.Leads e) : c.Leads e := by
  rcases h with rfl | ⟨m, rfl⟩
  · exact h'
  · rcases h' with rfl | ⟨n, rfl⟩
    · exact c.leads_advance m
    · rw [advance_advance]
      exact c.leads_advance (m + n)

theorem Leads.source_eq (h : c.Leads d) : d.source = c.source := by
  rcases h with rfl | ⟨n, rfl⟩ <;> rfl

/-- Within the source, offsets only grow. -/
theorem Leads.offset_le (h : c.Leads d) (hc : c.inSource) : c.offset ≤ d.offset := by
  rw [inSource_iff] at hc
  rcases h with rfl | ⟨n, rfl⟩
  · exact Nat.le_refl _
  · rw [offset_advance]
    omega

/-- What lies ahead later is the end of what lay ahead before. -/
theorem Leads.suffix (h : c.Leads d) : d.rest <:+ c.rest := by
  rcases h with rfl | ⟨n, rfl⟩
  · exact List.suffix_refl _
  · exact List.drop_suffix n c.rest

theorem Leads.length_le (h : c.Leads d) : d.rest.length ≤ c.rest.length :=
  h.suffix.length_le

theorem Leads.remaining_le (h : c.Leads d) : d.remaining ≤ c.remaining := by
  rcases h with rfl | ⟨n, rfl⟩
  · exact Nat.le_refl _
  · exact c.remaining_advance_le n

theorem Leads.inSource (h : c.Leads d) (hc : c.inSource) : d.inSource := by
  rcases h with rfl | ⟨n, rfl⟩
  · exact hc
  · exact c.inSource_advance n

/-- A cursor that gets no closer to the end of the source stands still. -/
theorem Leads.eq_of_remaining_le (h : c.Leads d) (hle : c.remaining ≤ d.remaining) : d = c := by
  rcases h with rfl | ⟨n, rfl⟩
  · rfl
  · have hlength := c.length_rest
    rw [remaining_advance, remaining] at hle
    ext1
    · rfl
    · rw [offset_advance]
      omega

/-- A cursor with less text ahead has less of the source remaining. -/
theorem Leads.remaining_lt (h : c.Leads d) (hlt : d.rest.length < c.rest.length) :
    d.remaining < c.remaining := by
  have hne : c.rest ≠ [] := fun e => by simp [e] at hlt
  have hc := inSource_of_rest_ne_nil hne
  rw [remaining_eq hc, remaining_eq (h.inSource hc)]
  exact hlt

end Cursor

namespace Source

variable (s : Source) {n : Nat}

/-- Cursors advance by offsets, as long as they stay in the source. -/
theorem advance_cursor {k : Nat} (h : n + k ≤ s.text.length) :
    (s.cursor n).advance k = s.cursor (n + k) := by
  ext1
  · rfl
  · rw [Cursor.offset_advance]
    exact Nat.min_eq_left h

theorem remaining_cursor (h : n ≤ s.text.length) :
    (s.cursor n).remaining = s.text.length - n := by
  rw [Cursor.remaining_eq (Cursor.inSource_iff.2 h)]
  exact List.length_drop

/-- Just behind a cursor is the last character of the text before it. -/
theorem previous?_cursor (h : n ≤ s.text.length) :
    (s.cursor n).previous? = (s.text.take n).getLast? := by
  rw [List.getLast?_take]
  change (if n = 0 then none else s.text[n - 1]?) = _
  by_cases hstart : n = 0
  · rw [if_pos hstart, if_pos hstart]
  · rw [if_neg hstart, if_neg hstart, List.getElem?_eq_getElem (by omega), Option.some_or]

/-! ### Sources in three parts -/

/-- The source of a text between two others. -/
def around (name before middle after : Text) : Source where
  name := name
  text := before ++ (middle ++ after)

variable (name before middle after : Text)

theorem length_around : (around name before middle after).text.length =
    before.length + middle.length + after.length := by
  simp only [around, List.length_append]
  omega

/-- Before the middle, the rest of the text before it lies ahead, and then all of the rest. -/
theorem rest_around_before (hn : n ≤ before.length) :
    ((around name before middle after).cursor n).rest = before.drop n ++ (middle ++ after) :=
  List.drop_append_of_le_length hn

/-- Behind the middle, only the text after it lies ahead. -/
theorem rest_around_after :
    ((around name before middle after).cursor (before.length + middle.length + n)).rest =
      after.drop n := by
  change (before ++ (middle ++ after)).drop (before.length + middle.length + n) = _
  rw [← List.append_assoc, ← List.length_append, List.drop_length_add_append]

theorem take_around_after :
    (around name before middle after).text.take (before.length + middle.length + n) =
      before ++ (middle ++ after.take n) := by
  rw [around, Nat.add_assoc, List.take_length_add_append, List.take_length_add_append]

end Source

end EventRules
