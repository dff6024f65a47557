/-
# Aligned sources

Two sources are aligned when positions in one correspond to positions in the other so that, from
corresponding positions on, the same tokens are read. The texts ahead of corresponding positions
agree up to a place where each of them ends or goes on with space. How far the space goes need not
be the same on both sides; but where something other than space lies ahead, skipping the space leads
to corresponding positions again.

What a parser reads on one side, it reads on the other. There is one exception, at the end of the
source: a parser that looks ahead past the last token may find something there on the other side. So
the statements below say which parsers leave something ahead that they do not touch.
-/

import EventRules.Proofs.Reading

namespace EventRules

/-- Something other than space lies ahead. -/
def Cursor.Live (c : Cursor) : Prop :=
  ∃ ch ∈ c.rest, isSpace ch = false

/-- The text ends here or goes on with space. -/
abbrev Text.Breaks (t : Text) : Prop :=
  t.Stops fun c => !isSpace c

/-- The class holds neither space nor double quotes. -/
def Solid (isMember : Char → Bool) : Prop :=
  ∀ c ∈ [' ', '\t', '\r', '\n', '"'], isMember c = false

instance (isMember : Char → Bool) : Decidable (Solid isMember) :=
  inferInstanceAs (Decidable (∀ c ∈ [' ', '\t', '\r', '\n', '"'], isMember c = false))

/-- The character is neither space nor a double quote. -/
def IsMark (m : Char) : Prop :=
  isSpace m = false ∧ m ≠ '"'

instance (m : Char) : Decidable (IsMark m) :=
  inferInstanceAs (Decidable (isSpace m = false ∧ m ≠ '"'))

/-- A correspondence of positions in two sources from which the same tokens are read. -/
structure Alignment where
  /-- The position on the left corresponds to that on the right. -/
  Rel : Cursor → Cursor → Prop
  /-- The texts ahead agree up to a break, and the alignment goes along with them as far as no
  quotation starts. -/
  overlap {c d : Cursor} : Rel c d → ∃ u v w, c.rest = u ++ v ∧ d.rest = u ++ w ∧
    Text.Breaks v ∧ Text.Breaks w ∧
    ∀ n ≤ u.length, '"' ∉ u.take n → Rel (c.advance n) (d.advance n)
  /-- The alignment is kept over space, if something else lies ahead. -/
  skipSpace {c d : Cursor} : Rel c d → c.Live → Rel c.skipSpace d.skipSpace
  /-- The alignment is kept over quotations. -/
  quotation {c d : Cursor} {t r : Text} : Rel c d → c.rest = '"' :: (t ++ '"' :: r) → '"' ∉ t →
    (∃ s, d.rest = '"' :: (t ++ '"' :: s)) ∧
      Rel (c.advance (t.length + 2)) (d.advance (t.length + 2))
  /-- A closing brace is just behind both positions or behind none. -/
  brace {c d : Cursor} : Rel c d → (c.previous? = some '}' ↔ d.previous? = some '}')
  /-- A semicolon comes next on both sides or on none. -/
  semicolon {c d : Cursor} : Rel c d → (c.skipSpace.peek = ";" ↔ d.skipSpace.peek = ";")
  /-- Text is consumed on both sides or on none. -/
  progress {c d c' d' : Cursor} : Rel c d → Rel c' d' →
    (c'.remaining < c.remaining ↔ d'.remaining < d.remaining)

/-! ### Tokens at corresponding positions -/

theorem Solid.not_of_isSpace {isMember : Char → Bool} (h : Solid isMember) {c : Char}
    (hc : isSpace c) : isMember c = false := by
  simp only [isSpace, Bool.or_eq_true, decide_eq_true_iff] at hc
  rcases hc with ((rfl | rfl) | rfl) | rfl <;> exact h _ (by decide)

theorem Text.Breaks.stops {isMember : Char → Bool} (h : Solid isMember) {t : Text}
    (ht : t.Breaks) : t.Stops isMember := by
  intro c hc
  exact h.not_of_isSpace (by simpa using ht c hc)

/-- A run of a solid class ends at a break. -/
theorem Text.takeWhile_append_of_breaks {isMember : Char → Bool} (h : Solid isMember) (u : Text)
    {v : Text} (hv : v.Breaks) : (u ++ v).takeWhile isMember = u.takeWhile isMember := by
  have hstops : v.takeWhile isMember = [] := by
    cases v with
    | nil => rfl
    | cons c v => simp [stops_cons.1 (hv.stops h)]
  rw [List.takeWhile_append, hstops, List.append_nil]
  split
  · next hall =>
    rw [(List.takeWhile_prefix isMember).eq_of_length hall]
  · rfl

/-- A keyword stands where a name stands that is the keyword. -/
theorem Cursor.atKeyword_iff_takeWhile {c : Cursor} {word : Text} (hword : word.IsName) :
    c.atKeyword word ↔ c.rest.takeWhile isNameChar = word := by
  by_cases hrest : c.rest = []
  · have hne : word ≠ [] := hword.1.ne_nil
    have hno : ¬ c.atKeyword word := not_atKeyword (by simp [hrest, hne])
    simp [hno, hrest, Ne.symm hne]
  · rw [atKeyword_iff (inSource_of_rest_ne_nil hrest) (List.takeWhile_append_dropWhile).symm
      (fun ch hch => List.mem_takeWhile_imp hch) _ hword.2]
    · exact eq_comm
    · intro ch hch
      have hstop := List.head?_dropWhile_not isNameChar c.rest
      rwa [hch] at hstop

namespace Cursor

variable {c d : Cursor}

theorem live_of_head? {m : Char} (hm : isSpace m = false) (h : c.rest.head? = some m) : c.Live :=
  ⟨m, List.mem_of_mem_head? h, hm⟩

theorem live_of_starts {isMember : Char → Bool} (hk : Solid isMember)
    (h : c.rest.head?.any isMember) : c.Live := by
  obtain ⟨m, hm, hmember⟩ := (Option.any_eq_true _ _).1 h
  refine live_of_head? (Bool.eq_false_iff.2 fun hspace => ?_) hm
  rw [hk.not_of_isSpace hspace] at hmember
  cases hmember

/-- A token of a solid class is something other than space. -/
theorem live_of_takeWhile {isMember : Char → Bool} (hk : Solid isMember)
    (hne : c.rest.takeWhile isMember ≠ []) : c.Live := by
  obtain ⟨m, r, hr⟩ := List.exists_cons_of_ne_nil hne
  have hmem : m ∈ c.rest.takeWhile isMember := by simp [hr]
  refine ⟨m, (List.takeWhile_prefix _).subset hmem, ?_⟩
  rw [Bool.eq_false_iff]
  intro hspace
  have hmember := List.mem_takeWhile_imp hmem
  rw [hk.not_of_isSpace hspace] at hmember
  cases hmember

/-- What lies ahead later lies ahead now. -/
theorem Live.of_leads (hd : d.Live) (h : c.Leads d) : c.Live := by
  obtain ⟨ch, hmem, hch⟩ := hd
  exact ⟨ch, h.suffix.subset hmem, hch⟩

theorem head?_of_peek {m : Char} (h : c.peek = [m]) : c.rest.head? = some m := by
  rw [peek] at h
  cases hrest : c.rest with
  | nil => simp [hrest] at h
  | cons ch r => simpa [hrest] using h

theorem peek_of_head? {m : Char} (h : c.rest.head? = some m) : c.peek = [m] := by
  obtain ⟨r, hr⟩ := List.head?_eq_some_iff.1 h
  simp [peek, hr]

/-- Past the space, the next character is no space. -/
theorem Live.head?_skipSpace (h : c.Live) : ∃ m, c.skipSpace.rest.head? = some m ∧
    isSpace m = false := by
  obtain ⟨ch, hmem, hch⟩ := h
  have hne : c.rest.dropWhile isSpace ≠ [] := by
    rw [Ne, List.dropWhile_eq_nil_iff]
    intro hall
    simp [hall ch hmem] at hch
  obtain ⟨m, r, hr⟩ := List.exists_cons_of_ne_nil hne
  have hstop := List.head?_dropWhile_not isSpace c.rest
  rw [hr] at hstop
  exact ⟨m, by rw [rest_skipSpace, hr]; rfl, hstop⟩

/-- Skipping space leaves what else lies ahead. -/
theorem Live.skipSpace (h : c.Live) : c.skipSpace.Live := by
  obtain ⟨m, hm, hspace⟩ := h.head?_skipSpace
  exact live_of_head? hspace hm

end Cursor

namespace Alignment

variable (S : Alignment) {c d : Cursor} {isMember : Char → Bool}

/-- Corresponding positions have the same character ahead, unless there is a break. -/
theorem head?_eq_some_iff {m : Char} (h : S.Rel c d) (hm : isSpace m = false) :
    d.rest.head? = some m ↔ c.rest.head? = some m := by
  obtain ⟨u, v, w, hc, hd, hv, hw, -⟩ := S.overlap h
  rw [hc, hd]
  cases u with
  | nil =>
    have hbreak : ∀ {t : Text}, t.Breaks → t.head? ≠ some m := fun ht heq => by
      simpa [hm] using ht m heq
    simp [hbreak hv, hbreak hw]
  | cons ch u => simp

/-- Members of a solid class come next on both sides or on none. -/
theorem head?_any_eq (h : S.Rel c d) (hk : Solid isMember) :
    d.rest.head?.any isMember = c.rest.head?.any isMember := by
  obtain ⟨u, v, w, hc, hd, hv, hw, -⟩ := S.overlap h
  rw [hc, hd]
  cases u with
  | nil =>
    have hbreak : ∀ {t : Text}, t.Breaks → t.head?.any isMember = false := by
      intro t ht
      cases t with
      | nil => rfl
      | cons ch t => simpa using Text.stops_cons.1 (ht.stops hk)
    simp [hbreak hv, hbreak hw]
  | cons ch u => simp

/-- Runs of a solid class are the same on both sides. -/
theorem takeWhile_eq (h : S.Rel c d) (hk : Solid isMember) :
    d.rest.takeWhile isMember = c.rest.takeWhile isMember := by
  obtain ⟨u, v, w, hc, hd, hv, hw, -⟩ := S.overlap h
  rw [hc, hd, Text.takeWhile_append_of_breaks hk u hv, Text.takeWhile_append_of_breaks hk u hw]

/-- The alignment is kept over a run of a solid class, which lies within the part on which the texts
agree. -/
theorem advance_takeWhile (h : S.Rel c d) (hk : Solid isMember) :
    S.Rel (c.advance (c.rest.takeWhile isMember).length)
      (d.advance (c.rest.takeWhile isMember).length) := by
  obtain ⟨u, v, w, hc, hd, hv, hw, hadvance⟩ := S.overlap h
  -- the token ends before the break, so it lies within the part on which the texts agree
  rw [hc, Text.takeWhile_append_of_breaks hk u hv]
  apply hadvance _ (List.takeWhile_prefix _).length_le
  rw [← List.prefix_iff_eq_take.1 (List.takeWhile_prefix isMember)]
  intro hquote
  have hmember : isMember '"' := List.mem_takeWhile_imp hquote
  rw [hk '"' (by decide)] at hmember
  cases hmember

/-- The alignment is kept over a mark, which is no break. -/
theorem advance_mark {m : Char} (h : S.Rel c d) (hm : IsMark m)
    (hhead : c.rest.head? = some m) : S.Rel (c.advance 1) (d.advance 1) := by
  obtain ⟨u, v, w, hc, hd, hv, hw, hadvance⟩ := S.overlap h
  cases u with
  | nil =>
    rw [hc, List.nil_append] at hhead
    simpa [hm.1] using hv m hhead
  | cons ch u =>
    obtain rfl : ch = m := by simpa [hc] using hhead
    exact hadvance 1 (by simp) (by simp [Ne.symm hm.2])

/-- Where something other than space lies ahead, there is space on both sides or on none. -/
theorem takeWhile_isSpace_eq_nil_iff (h : S.Rel c d) (hlive : c.Live) :
    d.rest.takeWhile isSpace = [] ↔ c.rest.takeWhile isSpace = [] := by
  obtain ⟨u, v, w, hc, hd, hv, hw, -⟩ := S.overlap h
  cases u with
  | cons ch u => simp [hc, hd, List.takeWhile_cons]
  | nil =>
    rw [List.nil_append] at hc hd
    have hspace : ∀ {t : Text}, t.Breaks → t ≠ [] → t.takeWhile isSpace ≠ [] := by
      intro t ht hne
      obtain ⟨ch, r, rfl⟩ := List.exists_cons_of_ne_nil hne
      simp [show isSpace ch by simpa using Text.stops_cons.1 ht]
    have hcne : c.rest ≠ [] := by
      obtain ⟨ch, hmem, -⟩ := hlive
      exact List.ne_nil_of_mem hmem
    -- skipping the space leads to the same character on both sides, so the right is not at its end
    have hdne : d.rest ≠ [] := by
      obtain ⟨m, hm, hnospace⟩ := hlive.head?_skipSpace
      have hright := (S.head?_eq_some_iff (S.skipSpace h hlive) hnospace).2 hm
      intro hnil
      simp [hnil] at hright
    simp [hspace (hc ▸ hv) hcne, hspace (hd ▸ hw) hdne]

end Alignment

/-! ### Simulation -/

/-- Every cursor. -/
def Cursor.Any (_ : Cursor) : Prop :=
  True

/-- What the first parser reads on the left of an alignment and leaves with `E` ahead, the second
one reads on the right; and to do so, the first one must have started with `P` ahead. The values
that they read have the same view. -/
structure Alignment.Simulates {α γ : Type} (S : Alignment) (P E : Cursor → Prop) (view : α → γ)
    (p q : Parser α) : Prop where
  before ⦃c c' : Cursor⦄ ⦃a : α⦄ : p.outcome c = .ok (a, c') → E c' → P c
  follows ⦃c d c' : Cursor⦄ ⦃a : α⦄ : S.Rel c d → p.outcome c = .ok (a, c') → E c' →
    ∃ b d', q.outcome d = .ok (b, d') ∧ view b = view a ∧ S.Rel c' d'

/-- Where the first parser fails recoverably on the left of an alignment, with `P` ahead, the second
one fails recoverably on the right. -/
def Alignment.Passes {α : Type} (S : Alignment) (P : Cursor → Prop) (p q : Parser α) : Prop :=
  ∀ ⦃c d : Cursor⦄ ⦃e : Failure⦄, S.Rel c d → P c → p.outcome c = .error e →
    e.isFatal = false → ∃ e', q.outcome d = .error e' ∧ e'.isFatal = false

/-- All failures of the parser are fatal. -/
def Parser.Sure {α : Type} (p : Parser α) : Prop :=
  ∀ ⦃c : Cursor⦄ ⦃e : Failure⦄, p.outcome c = .error e → e.isFatal

namespace Parser.Sure

variable {α β : Type} {p : Parser α}

theorem pure (a : α) : (Pure.pure a : Parser α).Sure :=
  fun _ _ h => nomatch h

theorem note (n : Note) : (Parser.note n).Sure :=
  fun _ _ h => nomatch h

/-- Committing makes every failure fatal. -/
theorem committed (p : Parser α) : (Parser.committed p).Sure := by
  intro c e h
  rw [outcome_committed] at h
  obtain ⟨e, -, rfl⟩ := mapError_eq_error.1 h
  cases e <;> simp [Diagnostic.isFatal]

/-- Only a fault keeps matchers from being conjoined. -/
theorem conjunction (ms : List Matcher) : (Parser.conjunction ms).Sure := by
  cases ms with
  | nil =>
    intro c e h
    cases h
    rfl
  | cons m ms => exact pure _

theorem bind {f : α → Parser β} (hp : p.Sure) (hf : ∀ a, (f a).Sure) : (p >>= f).Sure := by
  intro c e h
  rw [outcome_bind] at h
  rcases bind_eq_error.1 h with h | ⟨r, -, h⟩
  · exact hp h
  · exact hf r.1 h

end Parser.Sure

namespace Alignment

variable {S : Alignment} {α β γ δ : Type} {P E M P' E' : Cursor → Prop} {view : α → γ}
  {viewed : β → δ} {p q : Parser α}

namespace Simulates

/-- What has to lie ahead may be strengthened, and what lies behind may be weakened. -/
theorem mono (h : S.Simulates P E view p q) (hP : ∀ c, P c → P' c) (hE : ∀ c, E' c → E c) :
    S.Simulates P' E' view p q where
  before _ _ _ hok hc := hP _ (h.before hok (hE _ hc))
  follows _ _ _ _ hrel hok hc := h.follows hrel hok (hE _ hc)

/-- What may leave anything ahead may leave what is asked for. -/
theorem inside (h : S.Simulates P Cursor.Any view p q) : S.Simulates P E view p q :=
  h.mono (fun _ hc => hc) fun _ _ => trivial

theorem pure {a b : α} (h : view b = view a) :
    S.Simulates P P view (Pure.pure a) (Pure.pure b) where
  before c c' a' hok hc := by
    cases hok
    exact hc
  follows c d c' a' hrel hok hc := by
    cases hok
    exact ⟨b, d, rfl, h, hrel⟩

/-- Sequences correspond if their parts do. What lies ahead in the middle is told from the second
part. -/
theorem bind {f g : α → Parser β} (hp : S.Simulates P M view p q)
    (hf : ∀ a b, view b = view a → S.Simulates M E viewed (f a) (g b)) :
    S.Simulates P E viewed (p >>= f) (q >>= g) where
  before c c' a hok hc := by
    rw [Parser.outcome_bind] at hok
    obtain ⟨⟨x, m⟩, hfirst, hsecond⟩ := bind_eq_ok.1 hok
    exact hp.before hfirst ((hf x x rfl).before hsecond hc)
  follows c d c' a hrel hok hc := by
    rw [Parser.outcome_bind] at hok
    obtain ⟨⟨x, m⟩, hfirst, hsecond⟩ := bind_eq_ok.1 hok
    obtain ⟨y, n, hright, hview, hmiddle⟩ :=
      hp.follows hrel hfirst ((hf x x rfl).before hsecond hc)
    obtain ⟨b, d', hnext, hviewed, hend⟩ := (hf x y hview).follows hmiddle hsecond hc
    exact ⟨b, d', by rw [Parser.outcome_bind, hright]; exact hnext, hviewed, hend⟩

/-- A sequence whose first part reads the same value on both sides. -/
theorem seq {f g : α → Parser β} (hp : S.Simulates P M id p q)
    (hf : ∀ a, S.Simulates M E viewed (f a) (g a)) :
    S.Simulates P E viewed (p >>= f) (q >>= g) := by
  apply hp.bind
  intro a b h
  obtain rfl : b = a := h
  exact hf b

theorem map {f : α → β} (hp : S.Simulates P E view p q)
    (hf : ∀ a b, view b = view a → viewed (f b) = viewed (f a)) :
    S.Simulates P E viewed (f <$> p) (f <$> q) := by
  rw [← bind_pure_comp, ← bind_pure_comp]
  exact hp.bind fun a b h => .pure (hf a b h)

theorem here : S.Simulates P P (fun _ => ()) Parser.here Parser.here where
  before c c' a hok hc := by
    cases hok
    exact hc
  follows c d c' a hrel hok hc := by
    cases hok
    exact ⟨d, d, rfl, rfl, hrel⟩

/-- A parser that looks at its position looks at corresponding positions. -/
theorem here_bind {f g : Cursor → Parser β}
    (hbefore : ∀ ⦃c c' : Cursor⦄ ⦃b : β⦄, (f c).outcome c = .ok (b, c') → E c' → P c)
    (h : ∀ c d, S.Rel c d → S.Simulates P E viewed (f c) (g d)) :
    S.Simulates P E viewed (Parser.here >>= f) (Parser.here >>= g) where
  before _ _ _ hok hc := hbefore hok hc
  follows c d _ _ hrel hok hc := (h c d hrel).follows hrel hok hc

theorem note (m n : Note) : S.Simulates P P (fun _ => ()) (Parser.note m) (Parser.note n) where
  before c c' a hok hc := by
    cases hok
    exact hc
  follows c d c' a hrel hok hc := by
    cases hok
    exact ⟨(), d, rfl, rfl, hrel⟩

theorem fail (e : Diagnostic) (q : Parser α) : S.Simulates P E view (Parser.fail e) q where
  before _ _ _ hok _ := nomatch hok
  follows _ _ _ _ _ hok _ := nomatch hok

/-- Checks correspond if what passes on the left passes on the right, with the same view. -/
theorem ofExcept {x y : Except Failure α}
    (h : ∀ a, x = .ok a → ∃ b, y = .ok b ∧ view b = view a) :
    S.Simulates P P view (Parser.ofExcept x) (Parser.ofExcept y) where
  before c c' a hok hc := by
    obtain ⟨b, -, heq⟩ := map_eq_ok.1 hok
    cases heq
    exact hc
  follows c d c' a hrel hok hc := by
    obtain ⟨b, hb, heq⟩ := map_eq_ok.1 hok
    cases heq
    obtain ⟨b', hb', hview⟩ := h a hb
    exact ⟨b', d, by rw [Parser.outcome_ofExcept, hb']; rfl, hview, hrel⟩

theorem same (x : Except Failure α) :
    S.Simulates P P id (Parser.ofExcept x) (Parser.ofExcept x) :=
  .ofExcept fun a h => ⟨a, h, rfl⟩

/-- Only what is read counts, not how a failure is reported. -/
theorem relabel {p' q' : Parser α} (h : S.Simulates P E view p q)
    (hp : ∀ c r, p'.outcome c = .ok r ↔ p.outcome c = .ok r)
    (hq : ∀ c r, q'.outcome c = .ok r ↔ q.outcome c = .ok r) : S.Simulates P E view p' q' where
  before c c' a hok hc := h.before ((hp c _).1 hok) hc
  follows c d c' a hrel hok hc := by
    obtain ⟨b, d', hright, hview, hnext⟩ := h.follows hrel ((hp c _).1 hok) hc
    exact ⟨b, d', (hq d _).2 hright, hview, hnext⟩

theorem committed (h : S.Simulates P E view p q) :
    S.Simulates P E view (Parser.committed p) (Parser.committed q) :=
  h.relabel (fun _ _ => mapError_eq_ok) fun _ _ => mapError_eq_ok

/-- A choice goes the same way on both sides, if its first alternative is passed over on the right
whenever it is on the left and a later one succeeds. -/
theorem choice_cons {ps qs : List (Parser α)} {failures failures' : List Diagnostic}
    (hp : S.Simulates Cursor.Live E view p q)
    (hpass : S.Passes (fun c => c.Live ∧ ∃ fs r, (Parser.choice fs ps).outcome c = .ok r) p q)
    (hps : ∀ fs fs', S.Simulates Cursor.Live E view (Parser.choice fs ps) (Parser.choice fs' qs)) :
    S.Simulates Cursor.Live E view (Parser.choice failures (p :: ps))
      (Parser.choice failures' (q :: qs)) where
  before c c' a hok hc := by
    rw [Parser.outcome_choice_cons] at hok
    split at hok
    · next hfirst =>
      cases hok
      exact hp.before hfirst hc
    · cases hok
    · split at hok
      · cases hok
      · exact (hps _ failures').before hok hc
  follows c d c' a hrel hok hc := by
    rw [Parser.outcome_choice_cons] at hok
    rw [Parser.outcome_choice_cons]
    split at hok
    · next hfirst =>
      cases hok
      obtain ⟨b, d', hright, hview, hnext⟩ := hp.follows hrel hfirst hc
      exact ⟨b, d', by rw [hright], hview, hnext⟩
    · cases hok
    · next e hfirst =>
      split at hok
      · cases hok
      · next hfatal =>
        have hlive := (hps _ failures').before hok hc
        obtain ⟨_, hright, hrecoverable⟩ :=
          hpass hrel ⟨hlive, _, _, hok⟩ hfirst (Bool.eq_false_iff.2 hfatal)
        obtain ⟨e', rfl, hfatal'⟩ := Failure.exists_diagnostic hrecoverable
        obtain ⟨b, d', hlater, hview, hnext⟩ :=
          (hps _ (failures' ++ [e'])).follows hrel hok hc
        exact ⟨b, d', by rw [hright]; simpa [hfatal'] using hlater, hview, hnext⟩

/-- Choices correspond, since the alternatives that are passed over on the left are passed over on
the right. -/
theorem alt_map {ι : Type} {f g : ι → Parser α} {is : List ι}
    (h : ∀ i ∈ is, S.Simulates Cursor.Live E view (f i) (g i))
    (hpass : ∀ i ∈ is, S.Passes Cursor.Live (f i) (g i)) :
    S.Simulates Cursor.Live E view (Parser.alt (is.map f)) (Parser.alt (is.map g)) := by
  suffices hchoice : ∀ fs fs', S.Simulates Cursor.Live E view (Parser.choice fs (is.map f))
      (Parser.choice fs' (is.map g)) from hchoice [] []
  induction is with
  | nil => exact fun fs fs' => .fail _ _
  | cons i is ih =>
    rw [List.forall_mem_cons] at h hpass
    refine fun fs fs' => .choice_cons h.1 (fun c d e hrel hc => ?_) (ih h.2 hpass.2)
    exact hpass.1 hrel hc.1

/-- An option is taken on both sides or on none. -/
theorem optional (h : S.Simulates Cursor.Live Cursor.Live view p q)
    (hpass : S.Passes Cursor.Live p q) :
    S.Simulates Cursor.Live Cursor.Live (Option.map view) (Parser.optional p)
      (Parser.optional q) where
  before c c' a hok hc := by
    rw [Parser.outcome_optional] at hok
    split at hok
    · next r hfirst =>
      cases hok
      exact h.before hfirst hc
    · split at hok <;> cases hok
      exact hc
  follows c d c' a hrel hok hc := by
    rw [Parser.outcome_optional] at hok
    rw [Parser.outcome_optional]
    split at hok
    · next r hfirst =>
      cases hok
      obtain ⟨b, d', hright, hview, hnext⟩ := h.follows hrel hfirst hc
      exact ⟨some b, d', by rw [hright], congrArg some hview, hnext⟩
    · next e hfirst =>
      split at hok
      · cases hok
      · next hfatal =>
        cases hok
        obtain ⟨e', hright, hfatal'⟩ := hpass hrel hc hfirst (Bool.eq_false_iff.2 hfatal)
        exact ⟨none, d, by rw [hright]; simp [hfatal'], rfl, hrel⟩

/-- If something lies ahead of the end of a repetition, it does at its start. -/
theorem live_of_many0 (h : S.Simulates Cursor.Live Cursor.Live view p q)
    (htakes : ∀ ⦃c c' : Cursor⦄ ⦃a : α⦄, p.outcome c = .ok (a, c') → c'.remaining < c.remaining)
    {c c' : Cursor} {as : List α} (hok : (Parser.many0 p).outcome c = .ok (as, c'))
    (hc : c'.Live) : c.Live := by
  induction hn : c.remaining using Nat.strongRecOn generalizing c as with
  | ind n ih =>
    rw [Parser.outcome_many0] at hok
    split at hok
    · next r hfirst =>
      rw [if_pos (htakes hfirst)] at hok
      obtain ⟨s, hrest, heq⟩ := bind_eq_ok.1 hok
      cases heq
      exact h.before hfirst (ih _ (hn ▸ htakes hfirst) hrest rfl)
    · split at hok <;> cases hok
      exact hc

/-- Repetitions of parsers that consume text correspond, by induction on what is left of the source
on the left. -/
theorem many0 (h : S.Simulates Cursor.Live Cursor.Live view p q)
    (hpass : S.Passes Cursor.Live p q)
    (htakes : ∀ ⦃c c' : Cursor⦄ ⦃a : α⦄, p.outcome c = .ok (a, c') → c'.remaining < c.remaining) :
    S.Simulates Cursor.Live Cursor.Live (List.map view) (Parser.many0 p) (Parser.many0 q) := by
  refine ⟨fun c c' as => h.live_of_many0 htakes, fun c d c' as hrel hok hc => ?_⟩
  -- by induction on what is left of the source on the left, where every element consumes some
  induction hn : c.remaining using Nat.strongRecOn generalizing c d as with
  | ind n ih =>
    rw [Parser.outcome_many0] at hok
    rw [Parser.outcome_many0]
    split at hok
    · next r hfirst =>
      rw [if_pos (htakes hfirst)] at hok
      obtain ⟨⟨as, m⟩, hrest, heq⟩ := bind_eq_ok.1 hok
      cases heq
      obtain ⟨b, n, hright, hview, hnext⟩ :=
        h.follows hrel hfirst (h.live_of_many0 htakes hrest hc)
      obtain ⟨bs, d', hmore, hviews, hend⟩ := ih _ (hn ▸ htakes hfirst) _ _ _ hnext hrest rfl
      have hlt := (S.progress hrel hnext).1 (htakes hfirst)
      refine ⟨b :: bs, d', ?_, by simp [hview, hviews], hend⟩
      rw [hright]
      simp [hlt, hmore, ok_bind]
    · next e hfirst =>
      split at hok
      · cases hok
      · next hfatal =>
        cases hok
        obtain ⟨e', hright, hfatal'⟩ := hpass hrel hc hfirst (Bool.eq_false_iff.2 hfatal)
        exact ⟨[], d, by rw [hright]; simp [hfatal'], rfl, hrel⟩

theorem many1 (h : S.Simulates Cursor.Live Cursor.Live view p q)
    (hpass : S.Passes Cursor.Live p q)
    (htakes : ∀ ⦃c c' : Cursor⦄ ⦃a : α⦄, p.outcome c = .ok (a, c') → c'.remaining < c.remaining) :
    S.Simulates Cursor.Live Cursor.Live (List.map view) (Parser.many1 p) (Parser.many1 q) := by
  refine h.bind fun a b hfirst => (h.many0 hpass htakes).bind fun as bs hrest => .pure ?_
  rw [List.map_cons, List.map_cons, hfirst, hrest]

end Simulates

/-! ### What is passed over -/

namespace Passes

theorem mono (h : S.Passes P p q) (hP : ∀ c, P' c → P c) : S.Passes P' p q :=
  fun _ _ _ hrel hc => h hrel (hP _ hc)

/-- A parser that commits in its second part is passed over where its first part is. -/
theorem bind {f g : α → Parser β} (hp : S.Passes P p q) (hf : ∀ a, (f a).Sure) :
    S.Passes P (p >>= f) (q >>= g) := by
  intro c d e hrel hc herror hfatal
  rw [Parser.outcome_bind] at herror
  rcases bind_eq_error.1 herror with hfirst | ⟨r, -, hsecond⟩
  · obtain ⟨e', hright, hfatal'⟩ := hp hrel hc hfirst hfatal
    exact ⟨e', by rw [Parser.outcome_bind, hright]; rfl, hfatal'⟩
  · simp [hf r.1 hsecond] at hfatal

theorem map {f : α → β} (hp : S.Passes P p q) : S.Passes P (f <$> p) (f <$> q) := by
  rw [← bind_pure_comp, ← bind_pure_comp]
  exact hp.bind fun _ => .pure _

/-- A parser without recoverable failures is never passed over. -/
theorem of_sure (h : p.Sure) : S.Passes P p q := by
  intro c d e hrel hc herror hfatal
  simp [h herror] at hfatal

/-- Both parts of a sequence are passed over, if the first one leaves ahead what the second one
asks for. -/
theorem seq {f g : α → Parser β} (hp : S.Passes P p q) (hpq : S.Simulates P' E view p q)
    (hE : ∀ ⦃c c' : Cursor⦄ ⦃a : α⦄, P c → p.outcome c = .ok (a, c') → E c')
    (hf : ∀ a b, view b = view a → S.Passes E (f a) (g b)) : S.Passes P (p >>= f) (q >>= g) := by
  intro c d e hrel hc herror hfatal
  rw [Parser.outcome_bind] at herror
  rcases bind_eq_error.1 herror with hfirst | ⟨⟨a, m⟩, hfirst, hsecond⟩
  · obtain ⟨e', hright, hfatal'⟩ := hp hrel hc hfirst hfatal
    exact ⟨e', by rw [Parser.outcome_bind, hright]; rfl, hfatal'⟩
  · have hm := hE hc hfirst
    obtain ⟨b, n, hright, hview, hmiddle⟩ := hpq.follows hrel hfirst hm
    obtain ⟨e', hlater, hfatal'⟩ := hf a b hview hmiddle hm hsecond hfatal
    exact ⟨e', by rw [Parser.outcome_bind, hright]; exact hlater, hfatal'⟩

/-- An option that was taken commits. -/
theorem optional_bind {f g : Option α → Parser β} (hp : S.Passes P p q)
    (hsome : ∀ a, (f (some a)).Sure) (hnone : S.Passes P (f none) (g none)) :
    S.Passes P (Parser.optional p >>= f) (Parser.optional q >>= g) := by
  intro c d e hrel hc herror hfatal
  rw [Parser.outcome_bind, Parser.outcome_optional] at herror
  rw [Parser.outcome_bind, Parser.outcome_optional]
  cases hfirst : p.outcome c with
  | ok r =>
    simp only [hfirst, ok_bind] at herror
    simp [hsome r.1 herror] at hfatal
  | error e₁ =>
    cases hfatal₁ : e₁.isFatal with
    | true =>
      simp only [hfirst, hfatal₁, if_true, error_bind, Except.error.injEq] at herror
      simp [← herror, hfatal₁] at hfatal
    | false =>
      obtain ⟨e₂, hright, hfatal₂⟩ := hp hrel hc hfirst hfatal₁
      simp only [hfirst, hfatal₁, Bool.false_eq_true, if_false, ok_bind] at herror
      obtain ⟨e', hnone', hfatal'⟩ := hnone hrel hc herror hfatal
      exact ⟨e', by simpa [hright, hfatal₂] using hnone', hfatal'⟩

end Passes

end Alignment

end EventRules
