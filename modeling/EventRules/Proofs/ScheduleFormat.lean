/-
# The format of schedules

What a schedule is in writing, said without saying how it is read: six fields, each of them a list
of terms, and a term stands for numbers at equal distances. A text is read as a schedule exactly if
it has this format, and a field then admits exactly the numbers that its terms stand for.

So the schedule that is read decides nothing about its text but the set of numbers in each field.
The text of a schedule is its normal form: it is read as the schedule again, and two texts have the
same normal form exactly if they stand for the same schedule.
-/

import EventRules.Proofs.Positional
import EventRules.Proofs.Schedule
import Mathlib.Data.List.Sort

namespace EventRules

/-! ### Texts put together and taken apart -/

namespace Text

variable {mark : Char} {t u v : Text}

/-- A text is cut at the first mark. -/
theorem cut?_eq_some_iff : cut? mark t = some (u, v) ↔ mark ∉ u ∧ t = u ++ mark :: v := by
  constructor
  · intro h
    have hmem : mark ∈ t := by
      by_contra hno
      rw [cut?_eq_none hno] at h
      cases h
    obtain ⟨u', v', rfl, hu'⟩ := List.eq_append_cons_of_mem hmem
    rw [cut?_append_cons hu'] at h
    cases h
    exact ⟨hu', rfl⟩
  · rintro ⟨hu, rfl⟩
    exact cut?_append_cons hu v

theorem DecimalNumeral.lacks {n : Nat} (h : t.DecimalNumeral n) (hmark : ¬ mark.isDigit) :
    mark ∉ t :=
  fun hmem => hmark (h.forall_mem mark hmem)

end Text

/-! ### Terms -/

/-- Numbers at equal distances, from a start up to a stop. -/
structure Stride where
  start : Nat
  stop : Nat
  step : Nat
  deriving DecidableEq, Repr

namespace Stride

/-- The number is reached from the start by whole steps, and lies no further than the stop. -/
def Contains (s : Stride) (n : Nat) : Prop :=
  ∃ i, n = s.start + i * s.step ∧ n ≤ s.stop

/-- The numbers of a stride, in ascending order. -/
def values (s : Stride) : List Nat :=
  CronUnit.every s.step s.start s.stop

/-- A value is hit by steps if its distance from the start is a whole number of steps. -/
theorem mem_values_iff {s : Stride} {n : Nat} (h : s.start ≤ s.stop) :
    n ∈ s.values ↔ s.Contains n := by
  rw [values, CronUnit.every, List.mem_filterMap]
  constructor
  · rintro ⟨i, hi, hn⟩
    rw [List.mem_range] at hi
    split at hn
    · next hmod =>
      cases hn
      have hsteps : i / s.step * s.step = i := Nat.div_mul_cancel (Nat.dvd_of_mod_eq_zero hmod)
      exact ⟨i / s.step, by rw [hsteps], by omega⟩
    · cases hn
  · rintro ⟨i, rfl, hle⟩
    refine ⟨i * s.step, List.mem_range.2 (by omega), ?_⟩
    rw [if_pos (Nat.mul_mod_left i s.step)]

end Stride

namespace CronUnit

/-- The text is a range of values of the unit: all of them, one number, or two numbers and all
between them. -/
inductive RangeText (unit : CronUnit) : Text → Nat → Nat → Prop
  | star : RangeText unit "*" unit.bounds.1 unit.bounds.2
  | single {t : Text} {n : Nat} (ht : t.DecimalNumeral n) (hlow : unit.bounds.1 ≤ n)
    (hhigh : n ≤ unit.bounds.2) : RangeText unit t n n
  | span {t u : Text} {a b : Nat} (ht : t.DecimalNumeral a) (hu : u.DecimalNumeral b)
    (hlow : unit.bounds.1 ≤ a) (hle : a ≤ b) (hhigh : b ≤ unit.bounds.2) :
    RangeText unit (t ++ '-' :: u) a b

/-- The text is a range, from which every number is taken, or a range and a step. -/
inductive TermText (unit : CronUnit) : Text → Stride → Prop
  | plain {t : Text} {a b : Nat} (ht : unit.RangeText t a b) : TermText unit t ⟨a, b, 1⟩
  | stepped {t u : Text} {a b k : Nat} (ht : unit.RangeText t a b) (hu : u.DecimalNumeral k)
    (hk : k ≠ 0) : TermText unit (t ++ '/' :: u) ⟨a, b, k⟩

/-- The text is a list of terms, at least one, with commas between. -/
def FieldText (unit : CronUnit) (t : Text) (strides : List Stride) : Prop :=
  strides ≠ [] ∧ ∃ terms, t = Text.join "," terms ∧ List.Forall₂ unit.TermText terms strides

/-- The text stands for the field: a star alone for any value, and otherwise a list of terms for
the numbers that one of them contains. -/
inductive FieldMeans (unit : CronUnit) : Text → CronField → Prop
  | any : FieldMeans unit "*" .any
  | only {t : Text} {strides : List Stride} {values : List Nat} (hstar : t ≠ "*")
    (ht : unit.FieldText t strides) (hsorted : values.Pairwise (· < ·))
    (hvalues : ∀ n, n ∈ values ↔ ∃ s ∈ strides, s.Contains n) : FieldMeans unit t (.only values)

variable {unit : CronUnit} {t : Text}

/-- A number is read exactly if it is a decimal numeral. -/
theorem number_eq_ok_iff {n : Nat} : unit.number t = .ok n ↔ t.DecimalNumeral n := by
  rw [← Text.decimal?_eq_some_iff, number]
  split <;> next h => simp [h]

theorem bounds_le (unit : CronUnit) : unit.bounds.1 ≤ unit.bounds.2 := by
  cases unit <;> decide

theorem RangeText.le {a b : Nat} (h : unit.RangeText t a b) : a ≤ b := by
  cases h with
  | star => exact unit.bounds_le
  | single => exact le_rfl
  | span _ _ _ hle => exact hle

/-- A range has digits and dashes only, unless it is a star. -/
theorem RangeText.lacks {a b : Nat} {mark : Char} (h : unit.RangeText t a b)
    (hdigit : ¬ mark.isDigit) (hdash : mark ≠ '-') (hstar : mark ≠ '*') : mark ∉ t := by
  cases h with
  | star => exact fun hmem => hstar (List.mem_singleton.1 hmem)
  | single ht => exact ht.lacks hdigit
  | span ht hu =>
    rw [List.mem_append, List.mem_cons, not_or, not_or]
    exact ⟨ht.lacks hdigit, hdash, hu.lacks hdigit⟩

theorem TermText.le {s : Stride} (h : unit.TermText t s) : s.start ≤ s.stop := by
  cases h with
  | plain ht => exact ht.le
  | stepped ht => exact ht.le

theorem TermText.lacks_comma {s : Stride} (h : unit.TermText t s) : ',' ∉ t := by
  cases h with
  | plain ht => exact ht.lacks (by decide) (by decide) (by decide)
  | stepped ht hu =>
    rw [List.mem_append, List.mem_cons, not_or, not_or]
    exact ⟨ht.lacks (by decide) (by decide) (by decide), by decide, hu.lacks (by decide)⟩

/-- The ends of a range, before they are compared with the values of the unit. -/
theorem ends_eq_ok_iff {a b : Nat} :
    unit.ends t = .ok (a, b) ↔
      (t = "*" ∧ a = unit.bounds.1 ∧ b = unit.bounds.2) ∨ (t.DecimalNumeral a ∧ b = a) ∨
        ∃ u v : Text, t = u ++ '-' :: v ∧ u.DecimalNumeral a ∧ v.DecimalNumeral b := by
  rw [bounds_eq]
  constructor
  · intro h
    rw [ends] at h
    split at h
    · next hstar =>
      cases h
      exact .inl ⟨hstar, rfl, rfl⟩
    · split at h
      · next u v hcut =>
        obtain ⟨start, hstart, h⟩ := bind_eq_ok.1 h
        obtain ⟨stop, hstop, heq⟩ := bind_eq_ok.1 h
        cases heq
        exact .inr (.inr ⟨u, v, (Text.cut?_eq_some_iff.1 hcut).2, number_eq_ok_iff.1 hstart,
          number_eq_ok_iff.1 hstop⟩)
      · obtain ⟨n, hn, heq⟩ := bind_eq_ok.1 h
        cases heq
        exact .inr (.inl ⟨number_eq_ok_iff.1 hn, rfl⟩)
  · rintro (⟨rfl, rfl, rfl⟩ | ⟨ht, rfl⟩ | ⟨u, v, rfl, hu, hv⟩)
    · rfl
    · have hstar : t ≠ "*" := by
        rintro rfl
        have hnone : '*' ∉ ("*" : Text) := ht.lacks (by decide)
        exact hnone (List.mem_singleton_self _)
      rw [ends, if_neg hstar, Text.cut?_eq_none (ht.lacks (by decide)), number_eq_ok_iff.2 ht]
      rfl
    · have hstar : u ++ '-' :: v ≠ "*" := by
        intro heq
        have hdash : '-' ∈ ("*" : Text) := heq ▸ by simp
        exact absurd hdash (by decide)
      rw [ends, if_neg hstar, Text.cut?_append_cons (hu.lacks (by decide))]
      dsimp only
      rw [number_eq_ok_iff.2 hu, number_eq_ok_iff.2 hv]
      rfl

/-- A range is read exactly if it is the text of one. -/
theorem range_eq_ok_iff {a b : Nat} : unit.range t = .ok (a, b) ↔ unit.RangeText t a b := by
  constructor
  · intro h
    obtain ⟨hlow, hhigh, hle⟩ := range_eq_ok h
    obtain ⟨⟨a', b'⟩, hends, h⟩ := bind_eq_ok.1 h
    dsimp only at h
    split at h
    · cases h
    · cases h
      rcases ends_eq_ok_iff.1 hends with ⟨rfl, rfl, rfl⟩ | ⟨ht, rfl⟩ | ⟨u, v, rfl, hu, hv⟩
      · exact .star
      · exact .single ht hlow hhigh
      · exact .span hu hv hlow hle hhigh
  · intro h
    have hends : unit.ends t = .ok (a, b) := by
      rw [ends_eq_ok_iff]
      cases h with
      | star => exact .inl ⟨rfl, rfl, rfl⟩
      | single ht => exact .inr (.inl ⟨ht, rfl⟩)
      | span ht hu => exact .inr (.inr ⟨_, _, rfl, ht, hu⟩)
    have hbounds : unit.bounds.1 ≤ a ∧ a ≤ b ∧ b ≤ unit.bounds.2 := by
      cases h with
      | star => exact ⟨le_rfl, unit.bounds_le, le_rfl⟩
      | single _ hlow hhigh => exact ⟨hlow, le_rfl, hhigh⟩
      | span _ _ hlow hle hhigh => exact ⟨hlow, hle, hhigh⟩
    rw [bounds_eq] at hbounds
    rw [range, hends, ok_bind]
    dsimp only at hbounds ⊢
    rw [if_neg (by omega)]
    rfl

/-- A term is read exactly if it is the text of steps through a range. -/
theorem term_eq_ok_iff {values : List Nat} :
    unit.term t = .ok values ↔ ∃ s, unit.TermText t s ∧ values = s.values := by
  constructor
  · intro h
    rw [term] at h
    split at h
    · next range step hcut =>
      obtain ⟨-, rfl⟩ := Text.cut?_eq_some_iff.1 hcut
      obtain ⟨k, hk, h⟩ := bind_eq_ok.1 h
      split at h
      · cases h
      · next hne =>
        obtain ⟨⟨a, b⟩, hrange, heq⟩ := bind_eq_ok.1 h
        cases heq
        exact ⟨⟨a, b, k⟩, .stepped (range_eq_ok_iff.1 hrange) (number_eq_ok_iff.1 hk) hne, rfl⟩
    · obtain ⟨⟨a, b⟩, hrange, heq⟩ := bind_eq_ok.1 h
      cases heq
      exact ⟨⟨a, b, 1⟩, .plain (range_eq_ok_iff.1 hrange), rfl⟩
  · rintro ⟨s, hs, rfl⟩
    cases hs with
    | plain ht =>
      have hslash : '/' ∉ _ := ht.lacks (by decide) (by decide) (by decide)
      rw [term, Text.cut?_eq_none hslash, range_eq_ok_iff.2 ht]
      rfl
    | stepped ht hu hk =>
      have hslash : '/' ∉ _ := ht.lacks (by decide) (by decide) (by decide)
      rw [term, Text.cut?_append_cons hslash]
      dsimp only
      rw [number_eq_ok_iff.2 hu, ok_bind, if_neg hk, range_eq_ok_iff.2 ht]
      rfl

/-! ### Fields -/

/-- Terms are read one by one. -/
theorem mapM_term_eq_ok_iff {terms : List Text} {lists : List (List Nat)} :
    terms.mapM unit.term = .ok lists ↔
      ∃ strides, List.Forall₂ unit.TermText terms strides ∧ lists = strides.map Stride.values := by
  rw [mapM_eq_ok]
  constructor
  · intro h
    induction h with
    | nil => exact ⟨[], .nil, rfl⟩
    | cons hterm _ ih =>
      obtain ⟨s, hs, rfl⟩ := term_eq_ok_iff.1 hterm
      obtain ⟨strides, hstrides, rfl⟩ := ih
      exact ⟨s :: strides, .cons hs hstrides, rfl⟩
  · rintro ⟨strides, hstrides, rfl⟩
    rw [List.forall₂_map_right_iff]
    exact hstrides.imp fun _ s hs => term_eq_ok_iff.2 ⟨s, hs, rfl⟩

/-- No term has a comma of its own, so splitting at commas finds the terms again. -/
theorem fieldText_iff {strides : List Stride} :
    unit.FieldText t strides ↔ List.Forall₂ unit.TermText (t.splitWhere (· = ',')) strides := by
  constructor
  · rintro ⟨hne, terms, rfl, hterms⟩
    have hcommas : ∀ u ∈ terms, ',' ∉ u :=
      ((List.forall₂_and_left _ _).1 (hterms.imp fun _ _ h => ⟨h.lacks_comma, h⟩)).1
    -- no term has a comma of its own, so splitting at commas finds the terms again
    have hsplit : (Text.join "," terms).splitWhere (· = ',') = terms := by
      refine Text.splitWhere_join (by decide) ?_ fun u hu c hc hcomma => ?_
      · rintro rfl
        exact hne (List.forall₂_nil_left_iff.1 hterms)
      · exact hcommas u hu (of_decide_eq_true hcomma ▸ hc)
    rwa [hsplit]
  · intro h
    refine ⟨?_, _, (Text.join_splitWhere ',' t).symm, h⟩
    rintro rfl
    exact Text.splitWhere_ne_nil _ t (List.forall₂_nil_right_iff.1 h)

/-- A field admits what one of its terms contains. -/
theorem mem_including_iff {strides : List Stride} (h : unit.FieldText t strides) {n : Nat} :
    n ∈ (strides.map Stride.values).flatten.foldr CronField.insertValue [] ↔
      ∃ s ∈ strides, s.Contains n := by
  have hle : ∀ s ∈ strides, s.start ≤ s.stop :=
    ((List.forall₂_and_left _ _).1 ((fieldText_iff.1 h).imp (S := fun u s =>
      s.start ≤ s.stop ∧ unit.TermText u s) fun _ _ h => ⟨h.le, h⟩).flip).1
  rw [CronField.mem_foldr_insertValue, List.mem_flatten]
  constructor
  · rintro ⟨_, hvalues, hn⟩
    obtain ⟨s, hs, rfl⟩ := List.mem_map.1 hvalues
    exact ⟨s, hs, (Stride.mem_values_iff (hle s hs)).1 hn⟩
  · rintro ⟨s, hs, hn⟩
    exact ⟨s.values, List.mem_map_of_mem hs, (Stride.mem_values_iff (hle s hs)).2 hn⟩

/-- A field other than a star has the values of its terms. -/
theorem field_of_fieldText {strides : List Stride} (hstar : t ≠ "*")
    (h : unit.FieldText t strides) :
    unit.field t = .ok (.including (strides.map Stride.values).flatten) := by
  rw [field, if_neg hstar, mapM_term_eq_ok_iff.2 ⟨strides, fieldText_iff.1 h, rfl⟩]
  rfl

/-- A text is read as the field that it stands for. -/
theorem field_eq_ok_iff {f : CronField} : unit.field t = .ok f ↔ unit.FieldMeans t f := by
  constructor
  · intro h
    rw [field] at h
    split at h
    · next hstar =>
      cases h
      rw [hstar]
      exact .any
    · next hstar =>
      obtain ⟨lists, hterms, heq⟩ := bind_eq_ok.1 h
      cases heq
      obtain ⟨strides, hstrides, rfl⟩ := mapM_term_eq_ok_iff.1 hterms
      rw [← fieldText_iff] at hstrides
      exact .only hstar hstrides (CronField.pairwise_foldr_insertValue _)
        fun n => mem_including_iff hstrides
  · intro h
    cases h with
    | any => rfl
    | only hstar ht hsorted hvalues =>
      -- a set is listed in ascending order in one way only
      have heq := (CronField.pairwise_foldr_insertValue _).eq_of_mem_iff hsorted
        fun n => (mem_including_iff ht).trans (hvalues n).symm
      rw [field_of_fieldText hstar ht, CronField.including, heq]

/-- A field is read exactly if it is a list of terms. -/
theorem exists_field_iff :
    (∃ f, unit.field t = .ok f) ↔ ∃ strides, unit.FieldText t strides := by
  constructor
  · rintro ⟨f, hf⟩
    cases field_eq_ok_iff.1 hf with
    | any => exact ⟨[_], List.cons_ne_nil _ _, ["*"], rfl, .cons (.plain .star) .nil⟩
    | only _ ht => exact ⟨_, ht⟩
  · rintro ⟨strides, ht⟩
    by_cases hstar : t = "*"
    · exact ⟨.any, by rw [hstar]; rfl⟩
    · exact ⟨_, field_of_fieldText hstar ht⟩

end CronUnit

/-! ### Schedules -/

namespace Cron

/-- Six or seven fields are a schedule when each of the first six is a field of its unit. -/
theorem exists_ofFields_iff {parts : List Text} :
    (∃ c, ofFields parts = .ok c) ↔ HasFields parts ∧
      List.Forall₂ (fun unit part => ∃ f, CronUnit.field unit part = .ok f) CronUnit.all
        (parts.take 6) := by
  constructor
  · rintro ⟨c, hc⟩
    obtain ⟨hparts, -, hfields⟩ := ofFields_eq_ok_iff.1 hc
    exact ⟨hparts, hfields.imp fun unit _ h => ⟨c.fieldOf unit, h⟩⟩
  · rintro ⟨hparts, hfields⟩
    obtain ⟨second, minute, hour, dayOfMonth, month, dayOfWeek, rest, rfl, hrest⟩ :=
      hparts.exists_eq
    simp only [CronUnit.all, List.take_succ_cons, List.take_zero, List.forall₂_cons,
      List.Forall₂.nil, and_true] at hfields
    obtain ⟨⟨s, hs⟩, ⟨m, hm⟩, ⟨h, hh⟩, ⟨d, hd⟩, ⟨n, hn⟩, ⟨w, hw⟩⟩ := hfields
    exact ⟨⟨s, m, h, d, n, w, .any⟩, ofFields_eq_ok_iff.2 ⟨hparts, rfl,
      .cons hs (.cons hm (.cons hh (.cons hd (.cons hn (.cons hw .nil)))))⟩⟩

/-- What follows the six fields does not matter. -/
theorem ofFields_congr {parts parts' : List Text} (h : HasFields parts) (h' : HasFields parts')
    (heq : parts'.take 6 = parts.take 6) : ofFields parts' = ofFields parts := by
  obtain ⟨second, minute, hour, dayOfMonth, month, dayOfWeek, rest, rfl, hrest⟩ := h.exists_eq
  obtain ⟨_, _, _, _, _, _, rest', rfl, hrest'⟩ := h'.exists_eq
  cases heq
  rw [ofFields, if_neg hrest', ofFields, if_neg hrest]

/-- A text is a schedule exactly if it has six words, or seven, of which the first six are fields of
their units. The schedule then admits, for each unit, the numbers that the field stands for, which
are values of the unit and at least one; the seventh word does not matter, and the year is any. -/
theorem read_exactly (t : Text) :
    ((∃ c, Cron.read t = .ok c) ↔ HasFields t.words ∧
      List.Forall₂ (fun unit part => ∃ strides, CronUnit.FieldText unit part strides)
        CronUnit.all (t.words.take 6)) ∧
    (∀ c, Cron.read t = .ok c → c.year = .any ∧
      List.Forall₂ (fun unit part => unit.FieldMeans part (c.fieldOf unit)) CronUnit.all
        (t.words.take 6) ∧
      ∀ unit : CronUnit, unit.Admits (c.fieldOf unit)) ∧
    (∀ t' : Text, HasFields t.words → HasFields t'.words → t'.words.take 6 = t.words.take 6 →
      Cron.read t' = Cron.read t) := by
  refine ⟨?_, fun c hc => ?_, fun t' h h' heq => ?_⟩
  · simp only [← CronUnit.exists_field_iff]
    exact exists_ofFields_iff
  · obtain ⟨-, hyear, hfields⟩ := ofFields_eq_ok_iff.1 hc
    exact ⟨hyear, hfields.imp fun _ _ h => CronUnit.field_eq_ok_iff.1 h,
      (wellFormed_of_read hc).admits⟩
  · rw [read, read, ofFields_congr h h' heq]

/-- The last values of five units, a step, and a seventh word that is no year. An hour after the
last one is no field. -/
theorem read_exactly_halves :
    let t : Text := "*/30 59 23 30-31 12 7 x"
    let c : Cron := ⟨.only [0, 30], .only [59], .only [23], .only [30, 31], .only [12], .only [7],
      .any⟩
    Cron.read t = .ok c ∧ CronUnit.second.FieldMeans "*/30" (.only [0, 30]) ∧
      CronUnit.hour.Admits (.only [23]) ∧ (¬ ∃ strides, CronUnit.hour.FieldText "24" strides) ∧
      Cron.read "*/30 59 23 30-31 12 7" = .ok c := by
  intro t c
  have hread : Cron.read t = .ok c := rfl
  obtain ⟨-, hfields, hadmits⟩ := (read_exactly t).2.1 c hread
  have hlate : ¬ ∃ strides, CronUnit.hour.FieldText "24" strides := by
    intro hhour
    have hstar (unit : CronUnit) : ∃ strides, unit.FieldText "*" strides :=
      ⟨[_], List.cons_ne_nil _ _, ["*"], rfl, .cons (.plain .star) .nil⟩
    have hwords : Text.words "* * 24 * * *" = ["*", "*", "24", "*", "*", "*"] := by decide
    have hnone : ¬ ∃ late, Cron.read "* * 24 * * *" = .ok late := by
      rintro ⟨late, h⟩
      cases h
    rw [(read_exactly _).1, hwords] at hnone
    exact hnone ⟨.inl rfl, .cons (hstar _) <| .cons (hstar _) <| .cons hhour <|
      .cons (hstar _) <| .cons (hstar _) <| .cons (hstar _) .nil⟩
  have hsix := (read_exactly t).2.2 "*/30 59 23 30-31 12 7" (.inr rfl) (.inl rfl) (by decide)
  exact ⟨hread, (List.forall₂_cons.1 hfields).1, hadmits .hour, hlate, hsix.trans hread⟩

end Cron

/-! ### Normal forms -/

/-- The fields admit the same values. -/
def CronField.Agrees : CronField → CronField → Prop
  | .any, .any => True
  | .only values, .only values' => ∀ n, n ∈ values ↔ n ∈ values'
  | _, _ => False

/-- Fields that admit the same values are the same, since each lists them in ascending order. -/
theorem CronField.agrees_iff {unit : CronUnit} {f f' : CronField} (h : unit.Admits f)
    (h' : unit.Admits f') : f.Agrees f' ↔ f = f' := by
  cases f with
  | any => cases f' <;> simp [Agrees]
  | only values =>
    cases f' with
    | any => simp [Agrees]
    | only values' =>
      rw [only.injEq]
      exact ⟨fun hvalues => h.2.1.eq_of_mem_iff h'.2.1 hvalues, fun heq n => by rw [heq]⟩

namespace Cron

/-- The schedules admit the same values for each unit. -/
def Agrees (c c' : Cron) : Prop :=
  ∀ unit, (c.fieldOf unit).Agrees (c'.fieldOf unit)

/-- The text of the schedule that a text is read as. -/
def normalForm (t : Text) : Except CronError Text :=
  (Cron.read t).map Cron.text

/-- Well-formed schedules whose fields admit the same values are the same. -/
theorem agrees_iff {c c' : Cron} (h : c.WellFormed) (h' : c'.WellFormed) :
    c.Agrees c' ↔ c = c' := by
  constructor
  · intro hagrees
    have hfields (unit : CronUnit) : c.fieldOf unit = c'.fieldOf unit :=
      (CronField.agrees_iff (h.admits unit) (h'.admits unit)).1 (hagrees unit)
    have hyear : c.year = c'.year := h.year.trans h'.year.symm
    cases c
    cases c'
    rw [mk.injEq]
    exact ⟨hfields .second, hfields .minute, hfields .hour, hfields .dayOfMonth, hfields .month,
      hfields .dayOfWeek, hyear⟩
  · rintro rfl unit
    exact (CronField.agrees_iff (h.admits unit) (h.admits unit)).2 rfl

/-- Schedules are told from their texts. -/
theorem text_eq_iff {c c' : Cron} (h : c.WellFormed) (h' : c'.WellFormed) :
    c.text = c'.text ↔ c = c' := by
  constructor
  · intro heq
    have hread := read_text h
    rw [heq, read_text h'] at hread
    exact (Except.ok.inj hread).symm
  · exact congrArg text

/-- The text of a schedule that has been read is read as that schedule again, so it is its own
normal form; and two texts have the same normal form exactly if their schedules are the same, which
is to say that they admit the same values. -/
theorem normalForm_spec {t : Text} {c : Cron} (h : Cron.read t = .ok c) :
    Cron.read c.text = .ok c ∧ normalForm t = .ok c.text ∧ normalForm c.text = .ok c.text ∧
      ∀ t' c', Cron.read t' = .ok c' →
        (c.Agrees c' ↔ c = c') ∧ (c.Agrees c' ↔ normalForm t = normalForm t') := by
  have hc := wellFormed_of_read h
  have hread := read_text hc
  have hform : normalForm t = .ok c.text := by rw [normalForm, h]; rfl
  refine ⟨hread, hform, by rw [normalForm, hread]; rfl, fun t' c' h' => ?_⟩
  have hc' := wellFormed_of_read h'
  have hform' : normalForm t' = .ok c'.text := by rw [normalForm, h']; rfl
  rw [hform, hform', Except.ok.injEq, text_eq_iff hc hc', agrees_iff hc hc']
  exact ⟨Iff.rfl, Iff.rfl⟩

/-- The same hours written in two ways, and a schedule for all days of the week, which is not the
schedule for any of them. -/
theorem normalForm_spec_hours :
    let c : Cron := ⟨.only [0], .only [0], .only [1, 2, 3], .any, .any, .any, .any⟩
    Cron.read "0 0 1-3 * * *" = .ok c ∧ Cron.read c.text = .ok c ∧
      normalForm "0 0 1-3 * * *" = normalForm "0 0 3,2,1 * * *" ∧
      normalForm "0 0 1-3 * * *" ≠ normalForm "0 0 1-3 * * 1-7" := by
  intro c
  have hread : Cron.read "0 0 1-3 * * *" = .ok c := rfl
  have hlist : Cron.read "0 0 3,2,1 * * *" = .ok c := rfl
  have hweek : Cron.read "0 0 1-3 * * 1-7" =
      .ok { c with dayOfWeek := .only [1, 2, 3, 4, 5, 6, 7] } := rfl
  obtain ⟨hback, -, -, hsame⟩ := normalForm_spec hread
  obtain ⟨hequal, hform⟩ := hsame _ c hlist
  obtain ⟨-, hother⟩ := hsame _ _ hweek
  exact ⟨hread, hback, hform.1 (hequal.2 rfl), fun heq => hother.2 heq .dayOfWeek⟩

end Cron

end EventRules
