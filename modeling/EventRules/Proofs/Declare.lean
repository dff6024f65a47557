/-
# What a declaration does

A declaration is refused when its name or its index is taken and redeclaration is not allowed.
Otherwise it makes one change to the symbol table. Neither whether it is accepted nor the change
depends on the place that it remembers.
-/

import EventRules.Compile
import EventRules.Proofs.Outcome

namespace EventRules

namespace Declaration

/-- Where the name or the index stands that a declaration introduces, and how long it is. -/
def place : Declaration → Option Cursor × Nat
  | constant name _ location | state name _ location => (location, name.length)
  | peripheral _ _ location length => (location, length)

/-- The refusal of a declaration whose name or index is taken. -/
def duplicate (d : Declaration) : Diagnostic :=
  .finding {
    location := d.place.1
    problem := .duplicateName
    length := some d.place.2
    severity := .fatal }

/-- A declaration without the place that it remembers. -/
def unlocated : Declaration → Declaration
  | constant name l _ => constant name l none
  | state name v _ => state name v none
  | peripheral index p _ _ => peripheral index p none 0

end Declaration

/-- A statement without the place that it remembers. -/
def Statement.unlocated : Statement → Statement
  | declaration d => declaration d.unlocated
  | rule p => rule p
  | clause m => clause m

/-- The statement is a declaration or a rule, and not a clause alone. -/
def Statement.isProper : Statement → Bool
  | declaration _ | rule _ => true
  | clause _ => false

/-- What is read as a statement of one form is a declaration or a rule. -/
theorem Parser.isProper_of_statementForm [NestingLimit] {terms : Terms} {form : StatementForm}
    {c c' : Cursor} {s : Statement} (h : (statementForm terms form).outcome c = .ok (s, c')) :
    s.isProper := by
  cases form <;>
    · rw [statementForm, outcome_map] at h
      obtain ⟨r, -, heq⟩ := map_eq_ok.1 h
      cases heq
      rfl

/-- What is read as a statement is a declaration or a rule. -/
theorem Parser.isProper_of_statementIn [NestingLimit] {terms : Terms} {forms : List StatementForm}
    {c c' : Cursor} {s : Statement} (h : (statementIn terms forms).outcome c = .ok (s, c')) :
    s.isProper := by
  rw [outcome_statementIn, mapError_eq_ok] at h
  obtain ⟨p, hp, hok⟩ := exists_of_choice_eq_ok h
  obtain ⟨form, -, rfl⟩ := List.mem_map.1 hp
  exact isProper_of_statementForm hok

namespace Symbols

/-- The name or the index of a declaration is taken. -/
def takes (s : Symbols) : Declaration → Bool
  | .constant name _ _ | .state name _ _ => s.constants.contains name
  | .peripheral index _ _ _ => s.peripherals.contains index

/-- A declaration is refused. -/
def refuses (s : Symbols) (d : Declaration) : Bool :=
  s.takes d && !s.redeclaration

/-- The table with what a declaration introduces, over what the name or the index stood for. -/
def introduce (s : Symbols) : Declaration → Symbols
  | .constant name l _ => { s with constants := s.constants.insert name l }
  | .state name v _ => { s with
      constants := s.constants.insert name (.int .u32 s.nextSlot)
      slots := s.slots.insert name s.nextSlot
      initialState := s.initialState.insert s.nextSlot v }
  | .peripheral index p _ _ => { s with peripherals := s.peripherals.insert index p }

/-- The note on a declaration that is accepted. -/
def noteOn (s : Symbols) : Declaration → Note
  | .constant name l _ => .constantDeclared name l
  | .state name v _ => .stateDeclared name s.nextSlot v
  | .peripheral index p _ _ => .peripheralDeclared index p

/-- A declaration is refused as a duplicate, or it is introduced. -/
theorem declare_eq (s : Symbols) (d : Declaration) :
    s.declare d =
      if s.refuses d then .error d.duplicate else .ok (s.noteOn d, s.introduce d) := by
  cases d with
  | constant name l location =>
    rw [declare, declareConstant, checkNew]
    change _ = if s.constants.contains name && !s.redeclaration then _ else _
    split <;> rfl
  | state name v location =>
    rw [declare, declareState, checkNew]
    change _ = if s.constants.contains name && !s.redeclaration then _ else _
    split <;> rfl
  | peripheral index p location length =>
    rw [declare, declarePeripheral, checkNew]
    change _ = if s.peripherals.contains index && !s.redeclaration then _ else _
    split <;> rfl

variable {s : Symbols} {d d' : Declaration}

/-- Whether a declaration is refused does not depend on its place. -/
theorem refuses_congr (h : d.unlocated = d'.unlocated) : s.refuses d = s.refuses d' := by
  cases d <;> cases d' <;> cases h <;> rfl

theorem introduce_congr (h : d.unlocated = d'.unlocated) : s.introduce d = s.introduce d' := by
  cases d <;> cases d' <;> cases h <;> rfl

theorem noteOn_congr (h : d.unlocated = d'.unlocated) : s.noteOn d = s.noteOn d' := by
  cases d <;> cases d' <;> cases h <;> rfl

end Symbols

namespace Progress

variable {p : Progress} {s s' : Statement}

/-- What taking in a rule or an accepted declaration leads to. A clause changes nothing. -/
def extend (p : Progress) : Statement → Progress
  | .rule r =>
    { p with processors := p.processors ++ [r], statementCount := p.statementCount + 1 }
  | .declaration d =>
    { p with symbols := p.symbols.introduce d, statementCount := p.statementCount + 1 }
  | .clause _ => p

/-- The refusal of a statement, if it is refused. -/
def refusal? (p : Progress) : Statement → Option Failure
  | .rule _ => none
  | .declaration d => if p.symbols.refuses d then some d.duplicate else none
  | .clause _ => some (.fault .notAStatement)

/-- A refusal is that of a declaration. -/
theorem refusal?_eq_some_iff (hs : s.isProper) {e : Failure} :
    p.refusal? s = some e ↔
      ∃ d, s = .declaration d ∧ p.symbols.refuses d = true ∧ e = d.duplicate := by
  cases s with
  | clause m => cases hs
  | rule r => simp [refusal?]
  | declaration d =>
    rw [refusal?, Option.ite_none_right_eq_some]
    constructor
    · rintro ⟨hrefuses, he⟩
      exact ⟨d, rfl, hrefuses, (Option.some.inj he).symm⟩
    · rintro ⟨_, hs, hrefuses, rfl⟩
      cases hs
      exact ⟨hrefuses, rfl⟩

/-- The note on a statement that is taken in. -/
def noteOn (p : Progress) : Statement → Note
  | .rule _ | .clause _ => .processorAdded p.processors.length
  | .declaration d => p.symbols.noteOn d

/-- A statement is refused, or it extends what there is. -/
theorem add_eq (p : Progress) (s : Statement) :
    p.add s =
      match p.refusal? s with
      | some e => .error e
      | none => .ok (p.noteOn s, p.extend s) := by
  cases s with
  | rule r | clause m => rfl
  | declaration d =>
    rw [add, Symbols.declare_eq, refusal?]
    split <;> rfl

/-- A statement is added exactly if it is not refused. -/
theorem add_eq_ok_iff {r : Note × Progress} :
    p.add s = .ok r ↔ p.refusal? s = none ∧ r = (p.noteOn s, p.extend s) := by
  rw [add_eq]
  cases p.refusal? s <;> simp [eq_comm]

/-- Whether a statement is refused does not depend on its places. -/
theorem refusal?_eq_none_congr (h : s.unlocated = s'.unlocated) :
    p.refusal? s = none ↔ p.refusal? s' = none := by
  cases s with
  | rule r | clause m => cases s' <;> cases h; rfl
  | declaration d =>
    cases s' with
    | rule r | clause m => cases h
    | declaration d' =>
      simp [refusal?, Symbols.refuses_congr (Statement.declaration.inj h)]

/-- A statement that is taken in is taken in alike with any other place. -/
theorem add_of_unlocated {r : Note × Progress} (h : s.unlocated = s'.unlocated)
    (hadd : p.add s = .ok r) : p.add s' = .ok r := by
  rw [add_eq_ok_iff, refusal?_eq_none_congr h] at hadd
  refine add_eq_ok_iff.2 ⟨hadd.1, hadd.2.trans ?_⟩
  cases s with
  | rule r | clause m => cases s' <;> cases h; rfl
  | declaration d =>
    cases s' with
    | rule r | clause m => cases h
    | declaration d' =>
      have hd := Statement.declaration.inj h
      rw [noteOn, noteOn, extend, extend, Symbols.noteOn_congr hd, Symbols.introduce_congr hd]

end Progress

end EventRules
