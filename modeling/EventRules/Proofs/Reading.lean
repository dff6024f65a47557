/-
# Reading written text

A parser reads a text before another one when, at every cursor before the two, it succeeds and stops
between them. What follows matters: a name goes on as long as it can. Reading passes through every
combinator, so the reading of a whole program comes from the reading of its tokens.
-/

import EventRules.Proofs.Outcome
import Mathlib.Data.List.Find

namespace EventRules

/-! ### Where a run of characters stops -/

/-- The text does not start with a character of the class. -/
def Text.Stops (isMember : Char → Bool) (t : Text) : Prop :=
  ∀ c ∈ t.head?, isMember c = false

/-- The text starts with a character of the class. -/
def Text.Starts (isMember : Char → Bool) (t : Text) : Prop :=
  t.head?.any isMember

/-- A letter or an underscore, and then letters, digits and underscores. -/
def Text.IsName (t : Text) : Prop :=
  t.Starts isNameStart ∧ ∀ c ∈ t, isNameChar c

instance (t : Text) : Decidable t.IsName :=
  inferInstanceAs (Decidable (t.head?.any isNameStart ∧ ∀ c ∈ t, isNameChar c))

namespace Text

variable {isMember : Char → Bool} {t u : Text} {c : Char}

theorem stops_nil (isMember : Char → Bool) : Stops isMember [] :=
  nofun

@[simp]
theorem stops_cons : Stops isMember (c :: t) ↔ isMember c = false := by
  simp [Stops]

@[simp]
theorem starts_cons : Starts isMember (c :: t) ↔ isMember c := by
  simp [Starts]

theorem Starts.ne_nil (h : t.Starts isMember) : t ≠ [] := by
  rintro rfl
  cases h

theorem Starts.append (h : t.Starts isMember) (u : Text) : (t ++ u).Starts isMember := by
  cases t with
  | nil => cases h
  | cons c t => exact starts_cons.2 (starts_cons.1 h)

/-- What starts with a character of one class stops every class that lacks the character. -/
theorem Starts.stops {isOther : Char → Bool} (h : t.Starts isMember)
    (hother : ∀ c, isMember c → isOther c = false) : t.Stops isOther := by
  cases t with
  | nil => cases h
  | cons c t => exact stops_cons.2 (hother c (starts_cons.1 h))

/-- What holds with any of the parts in front, and with none, holds with all of them in front. -/
theorem of_flatMap_append {ι : Type} {P : Text → Prop} {t : ι → Text} {is : List ι} {v : Text}
    (hpart : ∀ i ∈ is, ∀ w, P (t i ++ w)) (hv : P v) : P (is.flatMap t ++ v) := by
  cases is with
  | nil => exact hv
  | cons i is =>
    rw [List.flatMap_cons, List.append_assoc]
    exact hpart i (List.mem_cons_self ..) _

/-- What does not start with a character of a class starts with none of a smaller class. -/
theorem Stops.mono {isOther : Char → Bool} (h : t.Stops isMember)
    (hother : ∀ c, isOther c → isMember c) : t.Stops isOther := by
  intro c hc
  have hmember := h c hc
  exact Bool.eq_false_iff.2 fun hc' => by simp [hother c hc'] at hmember

theorem getLast?_append_of_eq (h : u.getLast? = some c) : (t ++ u).getLast? = some c := by
  rw [List.getLast?_append, h, Option.some_or]

theorem getLast?_cons_of_eq {d : Char} (h : u.getLast? = some c) : (d :: u).getLast? = some c :=
  getLast?_append_of_eq (t := [d]) h

/-- A run of a class ends where the class stops. -/
theorem takeWhile_append_of_stops (ht : ∀ c ∈ t, isMember c) (hu : Stops isMember u) :
    (t ++ u).takeWhile isMember = t := by
  rw [List.takeWhile_append_of_pos ht]
  cases u with
  | nil => simp
  | cons c u => simp [stops_cons.1 hu]

theorem dropWhile_append_of_stops (ht : ∀ c ∈ t, isMember c) (hu : Stops isMember u) :
    (t ++ u).dropWhile isMember = u := by
  rw [List.dropWhile_append_of_pos ht]
  cases u with
  | nil => rfl
  | cons c u => simp [stops_cons.1 hu]

/-- A run of a class ends where the text behind it does not go on with the class. -/
theorem takeWhile_append_eq_left (hu : Stops isMember u) :
    (t ++ u).takeWhile isMember = t.takeWhile isMember := by
  have hempty : u.takeWhile isMember = [] :=
    takeWhile_append_of_stops (t := []) (List.forall_mem_nil _) hu
  rw [List.takeWhile_append]
  split
  · next hall =>
    rw [hempty, List.append_nil, (List.takeWhile_prefix isMember).eq_of_length hall]
  · rfl

/-- A run of a class does not go beyond a text that ends with another character. -/
theorem takeWhile_append_of_last (ht : t ≠ []) (h : ∀ c ∈ t.getLast?, isMember c = false)
    (u : Text) : (t ++ u).takeWhile isMember = t.takeWhile isMember := by
  rw [List.takeWhile_append]
  split
  · next hall =>
    have hself := (List.takeWhile_prefix isMember).eq_of_length hall
    have hmem : t.getLast ht ∈ t.takeWhile isMember := hself.symm ▸ List.getLast_mem ht
    have hlast := h _ (List.getLast?_eq_some_getLast ht)
    rw [List.mem_takeWhile_imp hmem] at hlast
    cases hlast
  · rfl

end Text

/-- A word stands as a keyword where no name goes on behind it. -/
theorem Cursor.atKeyword_of_rest {c : Cursor} {word v : Text} (hc : c.inSource)
    (hrest : c.rest = word ++ v) (hv : v.Stops isNameChar) : c.atKeyword word := by
  have hend : ((c.ahead? word.length).any isNameChar) = false := by
    rw [ahead?, hrest, List.drop_left]
    cases v with
    | nil => rfl
    | cons ch v => exact Text.stops_cons.1 hv
  rw [atKeyword, hend, startsWith, hc, hrest]
  simp

theorem Cursor.not_atKeyword {c : Cursor} {word : Text} (h : ¬ word <+: c.rest) :
    ¬ c.atKeyword word := by
  rw [atKeyword, startsWith, Bool.and_eq_true, Bool.and_eq_true, List.isPrefixOf_iff_prefix]
  exact fun hall => h hall.1.1

/-- Among words of name characters, exactly the one that stands here up to its end is found. -/
theorem Cursor.atKeyword_iff {c : Cursor} {word u v : Text} (hc : c.inSource)
    (hrest : c.rest = u ++ v) (hu : ∀ ch ∈ u, isNameChar ch) (hv : v.Stops isNameChar)
    (hword : ∀ ch ∈ word, isNameChar ch) : c.atKeyword word ↔ word = u := by
  constructor
  · intro hat
    rw [atKeyword, startsWith, Bool.and_eq_true, Bool.and_eq_true, List.isPrefixOf_iff_prefix,
      ahead?] at hat
    obtain ⟨⟨⟨w, hw⟩, -⟩, hend⟩ := hat
    have hstops : Text.Stops isNameChar w := by
      rw [← hw, List.drop_left] at hend
      cases w with
      | nil => exact Text.stops_nil _
      | cons ch w => simpa using hend
    rw [← Text.takeWhile_append_of_stops hword hstops, hw, hrest,
      Text.takeWhile_append_of_stops hu hv]
  · rintro rfl
    exact atKeyword_of_rest hc hrest hv

/-- The space at a cursor is skipped up to where it stops. -/
theorem Cursor.skipSpace_of_rest {c : Cursor} {u v : Text} (hrest : c.rest = u ++ v)
    (hu : ∀ c ∈ u, isSpace c) (hv : v.Stops isSpace) : c.skipSpace = c.advance u.length := by
  rw [skipSpace, hrest, Text.takeWhile_append_of_stops hu hv]

/-- Over a text that is not empty, less of the source remains. -/
theorem Cursor.remaining_advance_lt {c : Cursor} {u v : Text} (hc : c.inSource)
    (hrest : c.rest = u ++ v) (hu : u ≠ []) : (c.advance u.length).remaining < c.remaining := by
  have hpos := List.length_pos_of_ne_nil hu
  rw [remaining_advance, remaining_eq hc, hrest, List.length_append]
  omega

namespace Parser

variable {α β : Type} {p : Parser α} {u v w : Text} {Q : α → Prop}

/-- At every cursor before `u` and then `v`, the parser succeeds with a value that has the property,
and stops before `v`. -/
def Reads (p : Parser α) (u v : Text) (Q : α → Prop) : Prop :=
  ∀ ⦃c : Cursor⦄, c.inSource → c.rest = u ++ v →
    ∃ a, p.outcome c = .ok (a, c.advance u.length) ∧ Q a

/-- At every cursor before `r`, the parser fails, and another alternative may still be tried. -/
def Rejects (p : Parser α) (r : Text) : Prop :=
  ∀ ⦃c : Cursor⦄, c.inSource → c.rest = r →
    ∃ d : Diagnostic, p.outcome c = .error d ∧ d.isFatal = false

namespace Reads

theorem of_eq {u' : Text} (hp : p.Reads u v Q) (h : u = u') : p.Reads u' v Q :=
  h ▸ hp

theorem mono {R : α → Prop} (hp : p.Reads u v Q) (h : ∀ a, Q a → R a) : p.Reads u v R := by
  intro c hc hrest
  obtain ⟨a, hok, ha⟩ := hp hc hrest
  exact ⟨a, hok, h a ha⟩

protected theorem pure {a : α} (h : Q a) : (pure a : Parser α).Reads [] v Q := by
  intro c hc _
  refine ⟨a, ?_, h⟩
  rw [outcome_pure, List.length_nil, Cursor.advance_zero hc]

/-- One text after the other is read by one parser after the other. -/
protected theorem bind {f : α → Parser β} {R : β → Prop} (hp : p.Reads u (w ++ v) Q)
    (hf : ∀ a, Q a → (f a).Reads w v R) : (p >>= f).Reads (u ++ w) v R := by
  intro c hc hrest
  obtain ⟨a, hok, ha⟩ := hp hc (by rw [hrest, List.append_assoc])
  have hnext : (c.advance u.length).rest = w ++ v := by
    rw [Cursor.rest_advance, hrest, List.append_assoc, List.drop_left]
  obtain ⟨b, hok', hb⟩ := hf a ha (c.inSource_advance _) hnext
  refine ⟨b, ?_, hb⟩
  rw [outcome_bind, hok, ok_bind, hok', Cursor.advance_advance, List.length_append]

/-- A parser that reads on from the cursor itself. -/
protected theorem here {f : Cursor → Parser β} {R : β → Prop}
    (hf : ∀ c : Cursor, c.inSource → c.rest = u ++ v → (f c).Reads u v R) :
    (Parser.here >>= f).Reads u v R := by
  intro c hc hrest
  rw [outcome_bind, outcome_here, ok_bind]
  exact hf c hc hrest hc hrest

protected theorem map {f : α → β} {R : β → Prop} (hp : p.Reads u v fun a => R (f a)) :
    (f <$> p).Reads u v R := by
  intro c hc hrest
  obtain ⟨a, hok, ha⟩ := hp hc hrest
  exact ⟨f a, by rw [outcome_map, hok]; rfl, ha⟩

/-- A check that passes reads nothing. -/
protected theorem ofExcept {x : Except Failure α} {a : α} (hx : x = .ok a) (h : Q a) :
    (ofExcept x).Reads [] v Q :=
  hx ▸ .pure h

protected theorem note (n : Note) : (Parser.note n).Reads [] v fun _ => True :=
  Reads.pure (a := ()) trivial

protected theorem committed (hp : p.Reads u v Q) : (Parser.committed p).Reads u v Q := by
  intro c hc hrest
  obtain ⟨a, hok, ha⟩ := hp hc hrest
  exact ⟨a, by rw [outcome_committed, hok]; rfl, ha⟩

/-- An option that can be read is taken. -/
protected theorem optional (hp : p.Reads u v Q) :
    (Parser.optional p).Reads u v fun r => ∃ a, r = some a ∧ Q a := by
  intro c hc hrest
  obtain ⟨a, hok, ha⟩ := hp hc hrest
  exact ⟨some a, by rw [outcome_optional, hok], a, rfl, ha⟩

/-- An option is left out where its parser rejects the text. -/
theorem optional_none (hp : p.Rejects v) : (Parser.optional p).Reads [] v (· = none) := by
  intro c hc hrest
  obtain ⟨d, herror, hfatal⟩ := hp hc hrest
  refine ⟨none, ?_, rfl⟩
  rw [outcome_optional, herror, List.length_nil, Cursor.advance_zero hc]
  simp [hfatal]

/-- A choice reads what one alternative reads and all earlier ones reject. -/
theorem choice (qs : List (Parser α)) {failures : List Diagnostic} {ps : List (Parser α)}
    (hq : ∀ q ∈ qs, q.Rejects (u ++ v)) (hp : p.Reads u v Q) :
    (Parser.choice failures (qs ++ p :: ps)).Reads u v Q := by
  intro c hc hrest
  induction qs generalizing failures with
  | nil =>
    obtain ⟨a, hok, ha⟩ := hp hc hrest
    exact ⟨a, by rw [List.nil_append, outcome_choice_cons, hok], ha⟩
  | cons q qs ih =>
    obtain ⟨d, herror, hfatal⟩ := hq q (List.mem_cons_self ..) hc hrest
    rw [List.cons_append, outcome_choice_cons, herror]
    simpa [hfatal] using ih fun q' hq' => hq q' (List.mem_cons_of_mem _ hq')

/-- Of a table of forms, the one that reads the text is chosen if all earlier ones reject it. -/
theorem alt_map {ι : Type} {parser : ι → Parser α} {before after : List ι} {form : ι}
    (hbefore : ∀ f ∈ before, (parser f).Rejects (u ++ v)) (hform : (parser form).Reads u v Q) :
    (alt ((before ++ form :: after).map parser)).Reads u v Q := by
  rw [List.map_append, List.map_cons]
  exact .choice _ (List.forall_mem_map.2 hbefore) hform

/-- A repetition ends before a text that its parser rejects. -/
theorem many0_nil (hp : p.Rejects v) : (Parser.many0 p).Reads [] v (· = []) := by
  intro c hc hrest
  obtain ⟨d, herror, hfatal⟩ := hp hc hrest
  refine ⟨[], ?_, rfl⟩
  rw [outcome_many0, herror, List.length_nil, Cursor.advance_zero hc]
  simp [hfatal]

/-- A repetition reads a first text and goes on from there. -/
theorem many0_cons {a : α} {as : List α} (hu : u ≠ []) (hp : p.Reads u (w ++ v) (· = a))
    (hrepeat : (Parser.many0 p).Reads w v (· = as)) :
    (Parser.many0 p).Reads (u ++ w) v (· = a :: as) := by
  intro c hc hrest
  obtain ⟨_, hok, rfl⟩ := hp hc (by rw [hrest, List.append_assoc])
  have hnext : (c.advance u.length).rest = w ++ v := by
    rw [Cursor.rest_advance, hrest, List.append_assoc, List.drop_left]
  have hlt : (c.advance u.length).remaining < c.remaining :=
    Cursor.remaining_advance_lt hc (hrest.trans (List.append_assoc ..)) hu
  obtain ⟨_, hok', rfl⟩ := hrepeat (c.inSource_advance _) hnext
  refine ⟨_, ?_, rfl⟩
  rw [outcome_many0, hok]
  dsimp only
  rw [if_pos hlt, hok', ok_bind, Cursor.advance_advance, List.length_append]

/-- A repetition reads parts one after the other, if each part is read before what may follow and
may itself follow. -/
theorem many0_flatMap {ι : Type} {P : Text → Prop} {t : ι → Text} {f : ι → α} {is : List ι}
    (hne : ∀ i ∈ is, t i ≠ []) (hread : ∀ i ∈ is, ∀ w, P w → p.Reads (t i) w (· = f i))
    (hpart : ∀ i ∈ is, ∀ w, P (t i ++ w)) (hv : P v) (hend : p.Rejects v) :
    (Parser.many0 p).Reads (is.flatMap t) v (· = is.map f) := by
  induction is with
  | nil => exact .many0_nil hend
  | cons i is ih =>
    rw [List.forall_mem_cons] at hne hread hpart
    exact .many0_cons hne.1 (hread.1 _ (Text.of_flatMap_append hpart.2 hv))
      (ih hne.2 hread.2 hpart.2)

end Reads

/-! ### Tokens -/

/-- A run of a class is read up to a text that does not go on with it. -/
theorem run1_reads {k : CharClass} (hne : u ≠ []) (hu : ∀ c ∈ u, k.contains c)
    (hv : v.Stops k.contains) : (run1 k).Reads u v (· = u) := by
  intro c hc hrest
  refine ⟨u, ?_, rfl⟩
  rw [outcome_run1, hrest, Text.takeWhile_append_of_stops hu hv, if_neg hne]

theorem name_reads (hu : u.IsName) (hv : v.Stops isNameChar) : name.Reads u v (· = u) := by
  intro c hc hrest
  refine ⟨u, ?_, rfl⟩
  have hstart : (c.ahead? 0).any isNameStart := by
    rw [Cursor.ahead?, List.drop_zero, hrest]
    exact hu.1.append v
  rw [outcome_name, if_pos hstart, hrest, Text.takeWhile_append_of_stops hu.2 hv]

theorem keyword_reads (word : Text) (hv : v.Stops isNameChar) :
    (keyword word).Reads word v fun _ => True := by
  intro c hc hrest
  exact ⟨(), by rw [outcome_keyword, if_pos (Cursor.atKeyword_of_rest hc hrest hv)], trivial⟩

/-- Of words that start alike, only one stands in the text as a whole. -/
theorem keywordChoice_reads {words : List Text}
    (hwords : ∀ w ∈ words, ∀ ch ∈ w, isNameChar ch) (hu : u ∈ words)
    (hv : v.Stops isNameChar) : (keywordChoice words).Reads u v (· = u) := by
  intro c hc hrest
  have hsame : words.find? c.atKeyword = words.find? (· = u) := by
    refine List.find?_congr fun w hw => ?_
    rw [Bool.eq_iff_iff, decide_eq_true_iff]
    exact Cursor.atKeyword_iff hc hrest (hwords u hu) hv (hwords w hw)
  obtain ⟨w, hfind⟩ :=
    Option.isSome_iff_exists.1 (List.find?_isSome (p := (· = u)).2 ⟨u, hu, by simp⟩)
  obtain rfl : w = u := by simpa using List.find?_some hfind
  exact ⟨w, by rw [outcome_keywordChoice, hsame, hfind], rfl⟩

theorem symbol_reads (mark : Char) : (symbol [mark]).Reads [mark] v fun _ => True := by
  intro c hc hrest
  refine ⟨(), ?_, trivial⟩
  have hpeek : c.peek = [mark] := by
    rw [Cursor.peek, hrest]
    rfl
  rw [outcome_symbol, if_pos hpeek]
  rfl

theorem skipSpace_reads (hu : ∀ c ∈ u, isSpace c) (hv : v.Stops isSpace) :
    skipSpace.Reads u v fun _ => True := by
  intro c hc hrest
  refine ⟨(), ?_, trivial⟩
  rw [outcome_skipSpace, Cursor.skipSpace_of_rest hrest hu hv]

theorem space_reads (hne : u ≠ []) (hu : ∀ c ∈ u, isSpace c) (hv : v.Stops isSpace) :
    space.Reads u v fun _ => True := by
  intro c hc hrest
  refine ⟨(), ?_, trivial⟩
  rw [outcome_space, Cursor.skipSpace_of_rest hrest hu hv, hrest,
    Text.takeWhile_append_of_stops hu hv, if_neg hne]

/-- Space before a mark is skipped. -/
theorem nextSymbol_reads {mark : Char} (hu : ∀ c ∈ u, isSpace c) (hmark : isSpace mark = false) :
    (nextSymbol [mark]).Reads (u ++ [mark]) v fun _ => True :=
  .bind (skipSpace_reads hu (Text.stops_cons.2 hmark)) fun _ _ => symbol_reads mark

theorem terminator_reads : terminator.Reads [';'] v fun _ => True := by
  intro c hc hrest
  have hskip : c.skipSpace = c := Cursor.skipSpace_eq_self hc (by rw [hrest]; rfl)
  refine ⟨(), ?_, trivial⟩
  have hpeek : c.skipSpace.peek = ";" := by
    rw [hskip, Cursor.peek, hrest]
    rfl
  rw [outcome_terminator, if_pos hpeek, hskip]
  rfl

/-! ### Rejected text -/

theorem Rejects.bind {f : α → Parser β} {r : Text} (hp : p.Rejects r) :
    (p >>= f).Rejects r := by
  intro c hc hrest
  obtain ⟨d, herror, hfatal⟩ := hp hc hrest
  exact ⟨d, by rw [outcome_bind, herror]; rfl, hfatal⟩

theorem Rejects.map {f : α → β} {r : Text} (hp : p.Rejects r) : (f <$> p).Rejects r := by
  rw [← bind_pure_comp]
  exact hp.bind

theorem keyword_rejects {word r : Text} (h : ¬ word <+: r) : (keyword word).Rejects r := by
  intro c hc hrest
  refine ⟨.expected c (.keyword word), ?_, rfl⟩
  rw [outcome_keyword, if_neg (Cursor.not_atKeyword (hrest ▸ h))]

/-- A keyword is rejected where another character stands than its first one. -/
theorem keyword_rejects_of_stops {ch : Char} {word r : Text} (hword : word.head? = some ch)
    (h : r.Stops (· = ch)) : (keyword word).Rejects r := by
  refine keyword_rejects ?_
  rintro ⟨w, rfl⟩
  have hhead : (word ++ w).head? = some ch := List.head?_append.trans (by rw [hword]; rfl)
  exact absurd (h ch hhead) (by simp)

theorem symbol_rejects {mark : Char} {r : Text} (h : r.Stops (· = mark)) :
    (symbol [mark]).Rejects r := by
  intro c hc hrest
  refine ⟨.expected c (.symbol [mark]), ?_, rfl⟩
  have hpeek : c.peek ≠ [mark] := by
    rw [Cursor.peek, hrest]
    cases r with
    | nil => simp
    | cons ch r => simpa using h
  rw [outcome_symbol, if_neg hpeek]

theorem run1_rejects {k : CharClass} {r : Text} (h : r.Stops k.contains) :
    (run1 k).Rejects r := by
  intro c hc hrest
  refine ⟨.expected c k.expectation, ?_, rfl⟩
  have hempty : c.rest.takeWhile k.contains = [] := by
    rw [hrest]
    exact Text.takeWhile_append_of_stops (t := []) (fun _ h => nomatch h) h
  rw [outcome_run1, if_pos hempty]

end Parser

end EventRules
