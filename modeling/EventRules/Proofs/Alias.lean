/-
# Aliases of state variables

A state variable is also a constant, whose value is the number of its slot, so that a rule and an
item mean the same slot by one name. Without redeclaration no declaration ever breaks this.

With redeclaration a constant may be declared over a state variable. It replaces the alias, but the
name keeps its slot: from then on the name means two things, until the next state variable of that
name is declared. This is the only way in which an alias is lost.
-/

import EventRules.Proofs.Declare

namespace EventRules

namespace Declaration

/-- The name that a declaration introduces, which a peripheral does not. -/
def name? : Declaration → Option Text
  | constant name _ _ | state name _ _ => some name
  | peripheral .. => none

/-- The name of the state variable that a declaration introduces. -/
def stateName? : Declaration → Option Text
  | state name _ _ => some name
  | constant .. | peripheral .. => none

/-- Of the declarations of a name, the last one is that of a constant, and the last one of a state
variable comes after the declarations `before`. -/
def ConstantOverState (x : Text) (ds before : List Declaration) (l : Literal) : Prop :=
  ∃ v location between location' rest,
    ds = before ++ .state x v location :: (between ++ .constant x l location' :: rest) ∧
    (∀ d ∈ between, d.stateName? ≠ some x) ∧ ∀ d ∈ rest, d.name? ≠ some x

end Declaration

namespace Symbols

/-- The table after a declaration. If the declaration is refused, the table is as before. -/
def attempt (s : Symbols) (d : Declaration) : Symbols :=
  match s.declare d with
  | .ok (_, s') => s'
  | .error _ => s

/-- The table after some declarations, one after the other. -/
def after (s : Symbols) (ds : List Declaration) : Symbols :=
  ds.foldl attempt s

/-- If a name is that of a state variable, the constant of that name is the number of its slot. -/
def Aliased (s : Symbols) (x : Text) : Prop :=
  ∀ slot, s.slots.get? x = some slot → s.constants.get? x = some (.int .u32 slot)

variable {s : Symbols} {d : Declaration} {ds : List Declaration} {x : Text}

/-! ### One declaration -/

theorem attempt_eq (s : Symbols) (d : Declaration) :
    s.attempt d = if s.refuses d then s else s.introduce d := by
  rw [attempt, declare_eq]
  cases s.refuses d <;> rfl

/-- With redeclaration every declaration is accepted. -/
theorem attempt_eq_introduce (hs : s.redeclaration = true) (d : Declaration) :
    s.attempt d = s.introduce d := by
  rw [attempt_eq, refuses, hs, Bool.not_true, Bool.and_false]
  rfl

/-- A name that is taken remains so. -/
theorem contains_introduce (h : s.constants.contains x = true) :
    (s.introduce d).constants.contains x = true := by
  rw [Table.contains] at h ⊢
  cases d with
  | constant name _ location | state name _ location =>
    rw [introduce, Table.get?_insert]
    split
    · rfl
    · exact h
  | peripheral index p location length => exact h

/-- A name is taken once it has been declared. -/
theorem contains_introduce_of_mem (h : x ∈ d.name?) :
    (s.introduce d).constants.contains x = true := by
  rw [Table.contains]
  cases d with
  | constant name _ location | state name _ location =>
    cases h
    rw [introduce, Table.get?_insert, if_pos rfl]
    rfl
  | peripheral index p location length => cases h

theorem redeclaration_attempt (s : Symbols) (d : Declaration) :
    (s.attempt d).redeclaration = s.redeclaration := by
  rw [attempt_eq]
  split
  · rfl
  · cases d <;> rfl

/-- A declaration changes the slot of the state variable that it introduces, and no other. -/
theorem slots_attempt_of_ne (h : d.stateName? ≠ some x) :
    (s.attempt d).slots.get? x = s.slots.get? x := by
  rw [attempt_eq]
  split
  · rfl
  · cases d with
    | constant name l location => rfl
    | peripheral index p location length => rfl
    | state name v location =>
      have hne : x ≠ name := fun heq => h (congrArg some heq.symm)
      rw [introduce, Table.get?_insert, if_neg hne]

/-- A declaration changes the constant of the name that it introduces, and no other. -/
theorem constants_attempt_of_ne (h : d.name? ≠ some x) :
    (s.attempt d).constants.get? x = s.constants.get? x := by
  rw [attempt_eq]
  split
  · rfl
  · cases d with
    | peripheral index p location length => rfl
    | constant name _ location | state name _ location =>
      have hne : x ≠ name := fun heq => h (congrArg some heq.symm)
      rw [introduce, Table.get?_insert, if_neg hne]

theorem stateName?_ne_of_name?_ne (h : d.name? ≠ some x) : d.stateName? ≠ some x := by
  cases d with
  | state name v location => exact h
  | constant | peripheral => nofun

/-- A declaration of another name leaves it open whether this one is aliased. -/
theorem aliased_attempt_of_ne (h : d.name? ≠ some x) : (s.attempt d).Aliased x ↔ s.Aliased x := by
  rw [Aliased, Aliased, slots_attempt_of_ne (stateName?_ne_of_name?_ne h),
    constants_attempt_of_ne h]

/-- A state variable is aliased by its declaration. -/
theorem aliased_introduce_state (s : Symbols) (x : Text) (v : Value) (location : Option Cursor) :
    (s.introduce (.state x v location)).Aliased x := by
  intro slot hslot
  rw [introduce, Table.get?_insert, if_pos rfl] at hslot ⊢
  cases hslot
  rfl

/-- The declaration of a name or an index that is not taken keeps every alias. -/
theorem Aliased.introduce (h : s.Aliased x) (hnew : s.takes d = false) :
    (s.introduce d).Aliased x := by
  intro slot hslot
  cases d with
  | peripheral index p location length => exact h slot hslot
  | state name v location =>
    by_cases hname : name = x
    · subst hname
      exact aliased_introduce_state s name v location slot hslot
    · rw [Symbols.introduce, Table.get?_insert, if_neg (Ne.symm hname)] at hslot ⊢
      exact h slot hslot
  | constant name l location =>
    have hconstant := h slot hslot
    have hname : name ≠ x := by
      rintro rfl
      rw [takes, Table.contains, hconstant] at hnew
      cases hnew
    rw [Symbols.introduce, Table.get?_insert, if_neg (Ne.symm hname)]
    exact hconstant

/-- Without redeclaration, a declaration keeps every alias. -/
theorem Aliased.attempt (h : s.Aliased x) (hs : s.redeclaration = false) (d : Declaration) :
    (s.attempt d).Aliased x := by
  rw [attempt_eq]
  split
  · exact h
  · next hrefuses =>
    rw [refuses, hs, Bool.not_false, Bool.and_true, Bool.not_eq_true] at hrefuses
    exact h.introduce hrefuses

/-! ### Sequences of declarations -/

theorem after_nil (s : Symbols) : s.after [] = s := rfl

/-- Declarations may be made in two parts. -/
theorem after_append (s : Symbols) (ds es : List Declaration) :
    s.after (ds ++ es) = (s.after ds).after es :=
  List.foldl_append

theorem after_concat (s : Symbols) (ds : List Declaration) (d : Declaration) :
    s.after (ds ++ [d]) = (s.after ds).attempt d :=
  s.after_append ds [d]

theorem redeclaration_after (s : Symbols) (ds : List Declaration) :
    (s.after ds).redeclaration = s.redeclaration := by
  induction ds generalizing s with
  | nil => rfl
  | cons d ds ih => exact (ih (s.attempt d)).trans (s.redeclaration_attempt d)

/-- Only the declaration of a state variable changes the slot of its name. -/
theorem slots_after_of_ne (h : ∀ d ∈ ds, d.stateName? ≠ some x) :
    (s.after ds).slots.get? x = s.slots.get? x := by
  induction ds generalizing s with
  | nil => rfl
  | cons d ds ih =>
    rw [List.forall_mem_cons] at h
    exact (ih h.2).trans (slots_attempt_of_ne h.1)

/-- Only a declaration of a name changes its constant. -/
theorem constants_after_of_ne (h : ∀ d ∈ ds, d.name? ≠ some x) :
    (s.after ds).constants.get? x = s.constants.get? x := by
  induction ds generalizing s with
  | nil => rfl
  | cons d ds ih =>
    rw [List.forall_mem_cons] at h
    exact (ih h.2).trans (constants_attempt_of_ne h.1)

/-- Where redeclaration is refused, an aliased name remains so. -/
theorem Aliased.after (h : s.Aliased x) (hs : s.redeclaration = false)
    (ds : List Declaration) : (s.after ds).Aliased x := by
  induction ds generalizing s with
  | nil => exact h
  | cons d ds ih => exact ih (h.attempt hs d) ((s.redeclaration_attempt d).trans hs)

/-- The tables that declarations lead to if none of them declares again what is declared. -/
inductive Reached : Symbols → Prop
  | initial (eventCodes redeclaration : Bool) : Reached (initial eventCodes redeclaration)
  | declare {s s' : Symbols} {d : Declaration} {note : Note} (hs : Reached s)
      (hnew : s.takes d = false) (hd : s.declare d = .ok (note, s')) : Reached s'

/-- In every table that declarations lead to, all names are aliased. -/
theorem Reached.aliased (h : s.Reached) (x : Text) : s.Aliased x := by
  induction h with
  | initial eventCodes redeclaration => nofun
  | @declare s s' d note _ hnew hd ih =>
    rw [declare_eq, refuses, hnew, Bool.false_and] at hd
    cases hd
    exact ih.introduce hnew

/-- With redeclaration, a state variable has the slot that was next when it was last declared. -/
theorem exists_of_slots_after {slot : Nat} (hs : s.redeclaration = true)
    (hnone : s.slots.get? x = none) (h : (s.after ds).slots.get? x = some slot) :
    ∃ before v location between, ds = before ++ .state x v location :: between ∧
      (∀ d ∈ between, d.stateName? ≠ some x) ∧ slot = (s.after before).nextSlot := by
  induction ds using List.reverseRecOn with
  | nil =>
    rw [after_nil, hnone] at h
    cases h
  | append_singleton ds d ih =>
    rw [after_concat] at h
    by_cases hname : d.stateName? = some x
    · cases d with
      | constant | peripheral => cases hname
      | state name v location =>
        cases hname
        rw [attempt_eq_introduce ((s.redeclaration_after ds).trans hs), introduce,
          Table.get?_insert, if_pos rfl] at h
        exact ⟨ds, v, location, [], rfl, List.forall_mem_nil _, (Option.some.inj h).symm⟩
    · rw [slots_attempt_of_ne hname] at h
      obtain ⟨before, v, location, between, rfl, hbetween, hslot⟩ := ih h
      exact ⟨before, v, location, between ++ [d], by simp,
        List.forall_mem_append.2 ⟨hbetween, List.forall_mem_singleton.2 hname⟩, hslot⟩

/-- With redeclaration, the slot and the constant of a name that is last declared as a constant are
those of its last declarations. -/
theorem after_of_constantOverState {before : List Declaration} {l : Literal}
    (hs : s.redeclaration = true) (h : Declaration.ConstantOverState x ds before l) :
    (s.after ds).slots.get? x = some (s.after before).nextSlot ∧
      (s.after ds).constants.get? x = some l := by
  obtain ⟨v, location, between, location', rest, rfl, hbetween, hrest⟩ := h
  have hredeclaration := fun es => (s.redeclaration_after es).trans hs
  constructor
  · have hlater : ∀ d ∈ between ++ .constant x l location' :: rest, d.stateName? ≠ some x :=
      List.forall_mem_append.2 ⟨hbetween, List.forall_mem_cons.2
        ⟨nofun, fun d hd => stateName?_ne_of_name?_ne (hrest d hd)⟩⟩
    rw [← List.concat_append, after_append, slots_after_of_ne hlater, List.concat_eq_append,
      after_concat, attempt_eq_introduce (hredeclaration _), introduce, Table.get?_insert,
      if_pos rfl]
  · rw [← List.cons_append, ← List.append_assoc, ← List.concat_append, after_append,
      constants_after_of_ne hrest, List.concat_eq_append, after_concat,
      attempt_eq_introduce (hredeclaration _), introduce, Table.get?_insert, if_pos rfl]

/-- With redeclaration, a name is aliased if no constant with another value is declared over its
state variable. -/
theorem aliased_after_of_constantOverState (hs : s.redeclaration = true)
    (hnone : s.slots.get? x = none)
    (h : ∀ before l, Declaration.ConstantOverState x ds before l →
      l = .int .u32 (s.after before).nextSlot) : (s.after ds).Aliased x := by
  induction ds using List.reverseRecOn with
  | nil =>
    intro slot hslot
    rw [after_nil, hnone] at hslot
    cases hslot
  | append_singleton ds d ih =>
    rw [after_concat]
    by_cases hname : d.name? = some x
    · rw [attempt_eq_introduce ((s.redeclaration_after ds).trans hs)]
      cases d with
      | peripheral index p location length => cases hname
      | state name v location =>
        cases hname
        exact aliased_introduce_state _ x v location
      | constant name l location' =>
        cases hname
        -- the slot, if there is one, is that of the state variable that the constant is over
        intro slot hslot
        obtain ⟨before, v, location, between, hds, hbetween, rfl⟩ :=
          exists_of_slots_after hs hnone hslot
        rw [introduce, Table.get?_insert, if_pos rfl, h before l
          ⟨v, location, between, location', [], by simp [hds], hbetween, List.forall_mem_nil _⟩]
    · -- a declaration of another name changes nothing here, and may stand last
      refine (aliased_attempt_of_ne hname).2 (ih fun before l hover => h before l ?_)
      obtain ⟨v, location, between, location', rest, rfl, hbetween, hrest⟩ := hover
      exact ⟨v, location, between, location', rest ++ [d], by simp, hbetween,
        List.forall_mem_append.2 ⟨hrest, List.forall_mem_singleton.2 hname⟩⟩

/-- After any declarations, accepted or refused, a name is aliased exactly if redeclaration is not
allowed, or no constant is declared over its state variable but the number of the slot itself. -/
theorem aliased_after_iff (eventCodes redeclaration : Bool) (ds : List Declaration) (x : Text) :
    let start := Symbols.initial eventCodes redeclaration
    (start.after ds).Aliased x ↔
      ∀ before l, redeclaration = true → Declaration.ConstantOverState x ds before l →
        l = .int .u32 (start.after before).nextSlot := by
  intro start
  constructor
  · intro h before l hredeclaration hover
    obtain ⟨hslot, hconstant⟩ := after_of_constantOverState (s := start) hredeclaration hover
    exact Option.some.inj (hconstant.symm.trans (h _ hslot))
  · intro h
    cases redeclaration with
    | false => exact Aliased.after (s := start) nofun rfl ds
    | true => exact aliased_after_of_constantOverState rfl rfl fun before l => h before l rfl

/-- A constant that is declared over a state variable leaves the name with a slot, and with another
value. -/
theorem not_aliased_of_constant_over_state :
    let s := (Symbols.initial false true).after
      [.state "x" (.bool false) none, .constant "x" (.bool true) none]
    s.slots.get? "x" = some 0 ∧ s.constants.get? "x" = some (.bool true) ∧ ¬ s.Aliased "x" := by
  intro s
  have hslot : s.slots.get? "x" = some 0 := rfl
  have hconstant : s.constants.get? "x" = some (.bool true) := rfl
  refine ⟨hslot, hconstant, fun h => ?_⟩
  have halias := h 0 hslot
  rw [hconstant] at halias
  cases halias

end Symbols

end EventRules
