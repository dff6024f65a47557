/-
# Well-formed schedules

A schedule is well formed when each of its fields admits any value or a non-empty set of values of
its unit, and the year is any. Reading yields well-formed schedules only, and every well-formed
schedule is read back from its text.
-/

import EventRules.Cron.Notation
import EventRules.Proofs.Numeral
import EventRules.Proofs.Outcome
import EventRules.Proofs.Text

namespace EventRules

/-- The least and the greatest value of a unit. -/
def CronUnit.bounds : CronUnit → Nat × Nat
  | second | minute => (0, 59)
  | hour => (0, 23)
  | dayOfMonth => (1, 31)
  | month => (1, 12)
  | dayOfWeek => (1, 7)

/-- Reading keeps within the bounds. -/
theorem CronUnit.bounds_eq (unit : CronUnit) : unit.bounds = (unit.lowest, unit.highest) := by
  cases unit <;> rfl

/-- A field admits any value, or the values of a non-empty set within the bounds of the unit. The
set is listed in ascending order. -/
def CronUnit.Admits (unit : CronUnit) : CronField → Prop
  | .any => True
  | .only values =>
    values ≠ [] ∧ values.Pairwise (· < ·) ∧ ∀ n ∈ values, unit.bounds.1 ≤ n ∧ n ≤ unit.bounds.2

instance (unit : CronUnit) : (f : CronField) → Decidable (unit.Admits f)
  | .any => inferInstanceAs (Decidable True)
  | .only values => inferInstanceAs (Decidable
      (values ≠ [] ∧ values.Pairwise (· < ·) ∧ ∀ n ∈ values, unit.bounds.1 ≤ n ∧ n ≤ unit.bounds.2))

/-- Every field fits its unit, and the year is any. -/
structure Cron.WellFormed (c : Cron) : Prop where
  second : CronUnit.second.Admits c.second
  minute : CronUnit.minute.Admits c.minute
  hour : CronUnit.hour.Admits c.hour
  dayOfMonth : CronUnit.dayOfMonth.Admits c.dayOfMonth
  month : CronUnit.month.Admits c.month
  dayOfWeek : CronUnit.dayOfWeek.Admits c.dayOfWeek
  year : c.year = .any

instance (c : Cron) : Decidable c.WellFormed :=
  decidable_of_iff
    (CronUnit.second.Admits c.second ∧ CronUnit.minute.Admits c.minute ∧
      CronUnit.hour.Admits c.hour ∧ CronUnit.dayOfMonth.Admits c.dayOfMonth ∧
      CronUnit.month.Admits c.month ∧ CronUnit.dayOfWeek.Admits c.dayOfWeek ∧ c.year = .any)
    ⟨fun ⟨s, m, h, d, n, w, y⟩ => ⟨s, m, h, d, n, w, y⟩,
      fun ⟨s, m, h, d, n, w, y⟩ => ⟨s, m, h, d, n, w, y⟩⟩

namespace CronField

theorem mem_insertValue {m n : Nat} {values : List Nat} :
    m ∈ insertValue n values ↔ m = n ∨ m ∈ values := by
  induction values with
  | nil => simp [insertValue]
  | cons k rest ih =>
    rw [insertValue]
    split
    · simp
    · split
      · next h => simp [h]
      · rw [List.mem_cons, List.mem_cons, ih]
        exact or_left_comm

/-- Insertion keeps an ascending order. -/
theorem pairwise_insertValue (n : Nat) {values : List Nat} (h : values.Pairwise (· < ·)) :
    (insertValue n values).Pairwise (· < ·) := by
  induction values with
  | nil => simp [insertValue]
  | cons k rest ih =>
    obtain ⟨hk, hrest⟩ := List.pairwise_cons.1 h
    rw [insertValue]
    split
    · next hlt =>
      refine List.pairwise_cons.2 ⟨fun m hm => ?_, h⟩
      rcases List.mem_cons.1 hm with rfl | hm
      · exact hlt
      · exact Nat.lt_trans hlt (hk m hm)
    · split
      · exact h
      · refine List.pairwise_cons.2 ⟨fun m hm => ?_, ih hrest⟩
        rcases mem_insertValue.1 hm with rfl | hm
        · omega
        · exact hk m hm

theorem mem_foldr_insertValue {m : Nat} {values : List Nat} :
    m ∈ values.foldr insertValue [] ↔ m ∈ values := by
  induction values with
  | nil => simp
  | cons n values ih => rw [List.foldr_cons, mem_insertValue, ih, List.mem_cons]

theorem pairwise_foldr_insertValue (values : List Nat) :
    (values.foldr insertValue []).Pairwise (· < ·) := by
  induction values with
  | nil => exact .nil
  | cons n values ih => exact pairwise_insertValue n ih

/-- A set that is listed in ascending order stays as it is listed. -/
theorem foldr_insertValue_eq_self {values : List Nat} (h : values.Pairwise (· < ·)) :
    values.foldr insertValue [] = values := by
  induction values with
  | nil => rfl
  | cons n values ih =>
    obtain ⟨hn, hrest⟩ := List.pairwise_cons.1 h
    rw [List.foldr_cons, ih hrest]
    cases values with
    | nil => rfl
    | cons m values => rw [insertValue, if_pos (hn m (List.mem_cons_self ..))]

end CronField

namespace CronUnit

variable {unit : CronUnit}

/-! ### Reading yields well-formed fields -/

/-- A range lies within the bounds of its unit, and starts before it stops. -/
theorem range_eq_ok {t : Text} {start stop : Nat} (h : unit.range t = .ok (start, stop)) :
    unit.bounds.1 ≤ start ∧ stop ≤ unit.bounds.2 ∧ start ≤ stop := by
  obtain ⟨⟨start', stop'⟩, -, hrest⟩ := bind_eq_ok.1 h
  rw [bounds_eq]
  dsimp only at hrest ⊢
  split at hrest
  · cases hrest
  · cases hrest
    omega

/-- Values in steps lie within the range. -/
theorem mem_every {step start stop n : Nat} (h : n ∈ every step start stop) (hle : start ≤ stop) :
    start ≤ n ∧ n ≤ stop := by
  obtain ⟨i, hi, hn⟩ := List.mem_filterMap.1 h
  have hi := List.mem_range.1 hi
  split at hn
  · cases hn
    omega
  · cases hn

theorem start_mem_every (step start stop : Nat) : start ∈ every step start stop := by
  refine List.mem_filterMap.2 ⟨0, List.mem_range.2 (by omega), ?_⟩
  simp

/-- Whatever the step, the range itself contributes its start, so no range is empty. -/
theorem every_of_range {t : Text} {step start stop : Nat} (h : unit.range t = .ok (start, stop)) :
    every step start stop ≠ [] ∧
      ∀ n ∈ every step start stop, unit.bounds.1 ≤ n ∧ n ≤ unit.bounds.2 := by
  obtain ⟨hlow, hhigh, hle⟩ := range_eq_ok h
  refine ⟨List.ne_nil_of_mem (start_mem_every step start stop), fun n hn => ?_⟩
  obtain ⟨hstart, hstop⟩ := mem_every hn hle
  omega

/-- A term denotes at least one value, and only values of the unit. -/
theorem term_eq_ok {t : Text} {values : List Nat} (h : unit.term t = .ok values) :
    values ≠ [] ∧ ∀ n ∈ values, unit.bounds.1 ≤ n ∧ n ≤ unit.bounds.2 := by
  rw [term] at h
  split at h
  · obtain ⟨step, -, h⟩ := bind_eq_ok.1 h
    split at h
    · cases h
    · obtain ⟨⟨start, stop⟩, hrange, heq⟩ := bind_eq_ok.1 h
      cases heq
      exact every_of_range hrange
  · obtain ⟨⟨start, stop⟩, hrange, heq⟩ := bind_eq_ok.1 h
    cases heq
    exact every_of_range hrange

/-- A field has at least one term, because a text is split into at least one piece. -/
theorem terms_ne_nil {isMark : Char → Bool} {t : Text} {terms : List (List Nat)}
    (h : (t.splitWhere isMark).mapM unit.term = .ok terms) : terms ≠ [] := by
  rintro rfl
  exact Text.splitWhere_ne_nil _ t (List.forall₂_nil_right_iff.1 (mapM_eq_ok.1 h))

/-- A field that is read fits its unit. -/
theorem field_eq_ok {t : Text} {f : CronField} (h : unit.field t = .ok f) : unit.Admits f := by
  rw [field] at h
  split at h
  · cases h
    trivial
  · obtain ⟨terms, hterms, heq⟩ := bind_eq_ok.1 h
    cases heq
    have hmember : ∀ values ∈ terms, values ≠ [] ∧
        ∀ n ∈ values, unit.bounds.1 ≤ n ∧ n ≤ unit.bounds.2 := by
      intro values hvalues
      obtain ⟨u, -, hu⟩ := exists_of_mem_mapM hterms hvalues
      exact term_eq_ok hu
    refine ⟨?_, CronField.pairwise_foldr_insertValue _, fun n hn => ?_⟩
    · obtain ⟨values, hvalues⟩ := List.exists_mem_of_ne_nil _ (terms_ne_nil hterms)
      obtain ⟨n, hn⟩ := List.exists_mem_of_ne_nil _ (hmember values hvalues).1
      exact List.ne_nil_of_mem
        (CronField.mem_foldr_insertValue.2 (List.mem_flatten.2 ⟨values, hvalues, hn⟩))
    · obtain ⟨values, hvalues, hn⟩ := List.mem_flatten.1 (CronField.mem_foldr_insertValue.1 hn)
      exact (hmember values hvalues).2 n hn

/-! ### Fields read back -/

theorem every_one_self (n : Nat) : every 1 n n = [n] := by
  simp [every]

/-- A numeral within the range of the unit is read as a term. -/
theorem term_decimal {n : Nat} (h : unit.bounds.1 ≤ n ∧ n ≤ unit.bounds.2) :
    unit.term (Text.decimal n) = .ok [n] := by
  have hfree : ∀ mark : Char, ¬ mark.isDigit → mark ∉ Text.decimal n :=
    fun _ hmark hmem => hmark (Text.isDigit_of_mem_decimal hmem)
  have hstar : Text.decimal n ≠ "*" := by
    intro heq
    exact hfree '*' (by decide) (heq ▸ List.mem_cons_self ..)
  have hends : unit.ends (Text.decimal n) = .ok (n, n) := by
    rw [ends, if_neg hstar, Text.cut?_eq_none (hfree '-' (by decide)), number,
      Text.decimal?_decimal]
    rfl
  have hrange : unit.range (Text.decimal n) = .ok (n, n) := by
    rw [bounds_eq] at h
    rw [range, hends, ok_bind]
    dsimp only at h ⊢
    rw [if_neg (by omega)]
    rfl
  rw [term, Text.cut?_eq_none (hfree '/' (by decide)), hrange]
  exact congrArg Except.ok (every_one_self n)

end CronUnit

theorem CronField.mem_text {f : CronField} {c : Char} (h : c ∈ f.text) :
    c.isDigit ∨ c = ',' ∨ c = '*' := by
  cases f with
  | any => exact .inr (.inr (List.mem_singleton.1 h))
  | only values =>
    obtain hc | ⟨t, ht, hc⟩ := Text.mem_join h
    · exact .inr (.inl (List.mem_singleton.1 hc))
    · obtain ⟨n, -, rfl⟩ := List.mem_map.1 ht
      exact .inl (Text.isDigit_of_mem_decimal hc)

theorem CronField.not_isBlank_of_mem_text {f : CronField} {c : Char} (h : c ∈ f.text) :
    ¬ Text.isBlank c := by
  rcases mem_text h with hdigit | rfl | rfl
  · rw [Text.isDigit_iff] at hdigit
    simp only [Text.isBlank, Text.blankRanges, List.any_cons, List.any_nil, Bool.or_eq_true,
      Bool.and_eq_true, decide_eq_true_iff, Bool.false_eq_true, or_false]
    omega
  · decide
  · decide

/-- The values of a field are found again between the commas. -/
theorem CronField.splitWhere_text {values : List Nat} (h : values ≠ []) :
    (only values).text.splitWhere (· = ',') = values.map Text.decimal := by
  refine Text.splitWhere_join (by decide) (by simpa using h) ?_
  rw [List.forall_mem_map]
  intro n _ c hc hcomma
  rw [decide_eq_true_iff.1 hcomma] at hc
  exact absurd (Text.isDigit_of_mem_decimal hc) (by decide)

/-- A list of values is not taken for any value. -/
theorem CronField.text_ne_star {values : List Nat} (h : values ≠ []) :
    (only values).text ≠ "*" := by
  intro heq
  have hmem : ['*'] ∈ values.map Text.decimal := by
    rw [← splitWhere_text h, heq]
    exact List.mem_cons_self ..
  obtain ⟨n, -, hn⟩ := List.mem_map.1 hmem
  have hdigit : '*' ∈ Text.decimal n := hn ▸ List.mem_cons_self ..
  exact absurd (Text.isDigit_of_mem_decimal hdigit) (by decide)

/-- The text of a field that fits its unit is read as that field. -/
theorem CronUnit.field_text {unit : CronUnit} {f : CronField} (h : unit.Admits f) :
    unit.field f.text = .ok f := by
  cases f with
  | any => rfl
  | only values =>
    obtain ⟨hne, hsorted, hrange⟩ := h
    have hterms : (values.map Text.decimal).mapM unit.term = .ok (values.map fun n => [n]) := by
      rw [mapM_eq_ok, List.forall₂_map_left_iff, List.forall₂_map_right_iff, List.forall₂_same]
      exact fun n hn => term_decimal (hrange n hn)
    have hflatten : (values.map fun n => [n]).flatten = values := List.flatMap_singleton' values
    rw [field, if_neg (CronField.text_ne_star hne), CronField.splitWhere_text hne, hterms, ok_bind,
      hflatten, CronField.including, CronField.foldr_insertValue_eq_self hsorted]
    rfl

/-! ### Schedules -/

/-- The units in the order in which their fields are written. -/
def CronUnit.all : List CronUnit :=
  [.second, .minute, .hour, .dayOfMonth, .month, .dayOfWeek]

namespace Cron

/-- What a schedule admits for a unit. -/
def fieldOf (c : Cron) : CronUnit → CronField
  | .second => c.second
  | .minute => c.minute
  | .hour => c.hour
  | .dayOfMonth => c.dayOfMonth
  | .month => c.month
  | .dayOfWeek => c.dayOfWeek

/-- There are six fields, or seven. -/
def HasFields (parts : List Text) : Prop :=
  parts.length = 6 ∨ parts.length = 7

theorem WellFormed.admits {c : Cron} (h : c.WellFormed) (unit : CronUnit) :
    unit.Admits (c.fieldOf unit) := by
  cases unit with
  | second => exact h.second
  | minute => exact h.minute
  | hour => exact h.hour
  | dayOfMonth => exact h.dayOfMonth
  | month => exact h.month
  | dayOfWeek => exact h.dayOfWeek

/-- Of six or seven fields, the first six are read, each for its unit. -/
theorem HasFields.exists_eq {parts : List Text} (h : HasFields parts) :
    ∃ second minute hour dayOfMonth month dayOfWeek rest,
      parts = second :: minute :: hour :: dayOfMonth :: month :: dayOfWeek :: rest ∧
        ¬ 1 < List.length rest := by
  rcases h with h | h
  · match parts, h with
    | [_, _, _, _, _, _], _ => exact ⟨_, _, _, _, _, _, [], rfl, by decide⟩
  · match parts, h with
    | [_, _, _, _, _, _, year], _ =>
      exact ⟨_, _, _, _, _, _, [year], rfl, by rw [List.length_singleton]; omega⟩

/-- Seven fields are read one by one, but the year is not looked at. -/
theorem ofFields_eq_ok_iff {parts : List Text} {c : Cron} :
    ofFields parts = .ok c ↔ HasFields parts ∧ c.year = .any ∧
      List.Forall₂ (fun unit part => unit.field part = .ok (c.fieldOf unit)) CronUnit.all
        (parts.take 6) := by
  constructor
  · intro h
    rw [ofFields.eq_def] at h
    split at h
    · next rest =>
      split at h
      · cases h
      · next hrest =>
        obtain ⟨second, hsecond, h⟩ := bind_eq_ok.1 h
        obtain ⟨minute, hminute, h⟩ := bind_eq_ok.1 h
        obtain ⟨hour, hhour, h⟩ := bind_eq_ok.1 h
        obtain ⟨dayOfMonth, hdayOfMonth, h⟩ := bind_eq_ok.1 h
        obtain ⟨month, hmonth, h⟩ := bind_eq_ok.1 h
        obtain ⟨dayOfWeek, hdayOfWeek, h⟩ := bind_eq_ok.1 h
        cases h
        constructor
        · simp only [HasFields, List.length_cons]
          omega
        · exact ⟨rfl, .cons hsecond (.cons hminute (.cons hhour (.cons hdayOfMonth (.cons hmonth
            (.cons hdayOfWeek .nil)))))⟩
    · cases h
  · rintro ⟨hparts, hyear, hfields⟩
    obtain ⟨second, minute, hour, dayOfMonth, month, dayOfWeek, rest, rfl, hrest⟩ :=
      hparts.exists_eq
    simp only [CronUnit.all, List.take_succ_cons, List.take_zero, List.forall₂_cons,
      List.Forall₂.nil, and_true] at hfields
    obtain ⟨hsecond, hminute, hhour, hdayOfMonth, hmonth, hdayOfWeek⟩ := hfields
    rw [ofFields, if_neg hrest, hsecond, hminute, hhour, hdayOfMonth, hmonth, hdayOfWeek]
    cases c
    cases hyear
    rfl

end Cron

/-- A schedule that is read is well formed. -/
theorem Cron.wellFormed_of_read {t : Text} {c : Cron} (h : Cron.read t = .ok c) :
    c.WellFormed := by
  obtain ⟨-, hyear, hfields⟩ := ofFields_eq_ok_iff.1 h
  have hadmits : ∀ unit ∈ CronUnit.all, unit.Admits (c.fieldOf unit) :=
    ((List.forall₂_and_left _ _).1
      (hfields.imp fun _ _ hfield => ⟨CronUnit.field_eq_ok hfield, hfield⟩)).1
  simp only [CronUnit.all, List.forall_mem_cons] at hadmits
  obtain ⟨second, minute, hour, dayOfMonth, month, dayOfWeek, -⟩ := hadmits
  exact ⟨second, minute, hour, dayOfMonth, month, dayOfWeek, hyear⟩

theorem CronField.text_ne_nil {unit : CronUnit} {f : CronField} (h : unit.Admits f) :
    f.text ≠ [] := by
  cases f with
  | any => decide
  | only values =>
    intro hnil
    cases values with
    | nil => exact h.1 rfl
    | cons n rest =>
      cases rest with
      | nil => exact Text.decimal_ne_nil n ((Text.join_singleton ..).symm.trans hnil)
      | cons m rest =>
        have hjoin := (Text.join_cons_cons ..).symm.trans hnil
        exact Text.decimal_ne_nil n (List.append_eq_nil_iff.1 hjoin).1

/-- A well-formed schedule is read back from its text. -/
theorem Cron.read_text {c : Cron} (h : c.WellFormed) : Cron.read c.text = .ok c := by
  have hfields : ∀ f ∈ c.fields, f.text ≠ [] := by
    have hyear : c.year.text ≠ [] := by rw [h.year]; decide
    simp only [fields, List.forall_mem_cons]
    exact ⟨CronField.text_ne_nil h.second, CronField.text_ne_nil h.minute,
      CronField.text_ne_nil h.hour, CronField.text_ne_nil h.dayOfMonth,
      CronField.text_ne_nil h.month, CronField.text_ne_nil h.dayOfWeek, hyear,
      fun _ hf => nomatch hf⟩
  have hwords : c.text.words = c.fields.map CronField.text := by
    refine Text.words_join (by decide) (by simp [fields]) ?_ ?_ <;> rw [List.forall_mem_map]
    · exact hfields
    · exact fun f _ c hc => CronField.not_isBlank_of_mem_text hc
  rw [read, hwords]
  -- the seventh field is not looked at: the year that is read is always any
  exact ofFields_eq_ok_iff.2 ⟨.inr rfl, h.year, .cons (CronUnit.field_text h.second)
    (.cons (CronUnit.field_text h.minute) (.cons (CronUnit.field_text h.hour)
      (.cons (CronUnit.field_text h.dayOfMonth) (.cons (CronUnit.field_text h.month)
        (.cons (CronUnit.field_text h.dayOfWeek) .nil)))))⟩

end EventRules
