/-
# Statements in a larger scope

A scope extends another one if it has all its bindings, and perhaps bindings for further names. A
statement that is read in a scope is read alike in every scope that extends it. The further names
must not be truth values, since a name that is bound to a constant is read as the constant even
where it is also a literal, and the truth values are the only literals that are names.

So a program that compiles without the predefined event codes, and declares none of their names,
compiles with them to the same configuration. The two runs go in lock step.
-/

import EventRules.Proofs.Alias
import EventRules.Proofs.Carrying
import EventRules.Proofs.LiteralSpelling
import EventRules.Proofs.Run

namespace EventRules

/-- The second scope has all bindings of the first one, and further ones only for names that are no
truth values. -/
structure Scope.Extends (s t : Scope) : Prop where
  constants : ∀ name l, s.constants.get? name = some l → t.constants.get? name = some l
  slots : ∀ name slot, s.slots.get? name = some slot → t.slots.get? name = some slot
  truthValues : ∀ b, s.constants.get? (Text.ofBool b) = none →
    t.constants.get? (Text.ofBool b) = none

namespace Parser

variable {s t : Scope} {c : Cursor} {r : Statement × Cursor}

/-- An operand that is read in a scope is read alike in a scope that extends it. -/
theorem literalOrConstant_carries (h : s.Extends t) (A : Cursor → Prop)
    (B : Cursor → Cursor → Prop) :
    (literalOrConstant s.constants).Carries A B (literalOrConstant t.constants) := by
  intro c l c' _ _ hok
  rw [outcome_literalOrConstant] at hok ⊢
  cases hname : name.outcome c with
  | error d =>
    rw [hname] at hok
    exact hok
  | ok r =>
    rw [hname] at hok
    dsimp only at hok ⊢
    cases hconstant : s.constants.get? r.1 with
    | some k =>
      rw [hconstant] at hok
      rw [h.constants _ _ hconstant]
      exact hok
    | none =>
      -- a literal was read that is a name, so the name is a truth value and still unbound
      rw [hconstant] at hok
      obtain ⟨b, -, hb, -⟩ := eq_bool_of_literal hname hok
      rw [hb] at hconstant ⊢
      rw [h.truthValues b hconstant]
      exact hok

/-- A form of a statement that is read in a scope is read alike in a scope that extends it. -/
theorem statementForm_of_extends [NestingLimit] (h : s.Extends t) (form : StatementForm) :
    (statementForm s form).Carries (fun _ => True) (fun _ _ => True) (statementForm t form) := by
  have hcovers : s.terms.Covers (fun _ => True) (fun _ _ => True) t.terms :=
    ⟨literalOrConstant_carries h _ _, h.slots, rfl⟩
  have hcarries := (statementForm_composed (b := false) form).carries
    (literalOrConstant_takes s.constants).yields .all .all hcovers
  exact hcarries.mono fun _ _ => nofun

/-- A statement that is read in a scope is read alike in a scope that extends it. -/
theorem statement_of_extends [NestingLimit] (h : s.Extends t)
    (hok : (statement s).outcome c = .ok r) : (statement t).outcome c = .ok r := by
  have hcarries : (alt (StatementForm.all.map (statementForm s))).Carries (fun _ => True)
      (fun _ _ => True) (alt (StatementForm.all.map (statementForm t))) :=
    alt_carries (statementForm_commits s) (statementForm_commits t) (statementForm_of_extends h)
  rw [statement, outcome_statementIn, mapError_eq_ok] at hok ⊢
  exact hcarries trivial trivial hok

end Parser

/-! ### Runs with further constants -/

/-- The second table has the entries of the first one, and constants for further names. -/
structure Symbols.Adds (further : Table Text Literal) (s t : Symbols) : Prop where
  constants : ∀ name, t.constants.get? name = (s.constants.get? name).or (further.get? name)
  rest : t = { s with constants := t.constants }

namespace Symbols.Adds

variable {further : Table Text Literal} {s t : Symbols}

/-- Further constants extend the scope, if they are no truth values. -/
theorem scope (h : s.Adds further t) (hfurther : ∀ b, further.get? (Text.ofBool b) = none) :
    s.toScope.Extends t.toScope where
  constants name l hl := by rw [h.constants, hl, Option.some_or]
  slots name slot hslot := by
    rw [h.rest]
    exact hslot
  truthValues b hb := by rw [h.constants, hb, hfurther, Option.none_or]

/-- A name that is not among the further ones is taken in both tables or in neither. -/
theorem takes_eq (h : s.Adds further t) {d : Declaration}
    (hd : ∀ name ∈ d.name?, further.get? name = none) : t.takes d = s.takes d := by
  cases d with
  | constant name _ location | state name _ location =>
    have hname := h.constants name
    rw [hd name rfl, Option.or_none] at hname
    rw [takes, takes, Table.contains, Table.contains, hname]
  | peripheral index p location length =>
    rw [h.rest]
    rfl

/-- A declaration adds the same entries to both tables. -/
theorem introduce (h : s.Adds further t) (d : Declaration) :
    (s.introduce d).Adds further (t.introduce d) := by
  have hslot : t.nextSlot = s.nextSlot := by
    rw [h.rest]
    rfl
  have hinsert : ∀ (x name : Text) (l : Literal), (t.constants.insert x l).get? name =
      ((s.constants.insert x l).get? name).or (further.get? name) := by
    intro x name l
    rw [Table.get?_insert, Table.get?_insert]
    split
    · rfl
    · exact h.constants name
  cases d with
  | constant x l location =>
    refine ⟨fun name => hinsert x name l, ?_⟩
    rw [h.rest]
    rfl
  | state x v location =>
    refine ⟨fun name => ?_, ?_⟩
    · rw [Symbols.introduce, Symbols.introduce, hslot]
      exact hinsert x name _
    · rw [Symbols.introduce, hslot, h.rest]
      rfl
  | peripheral index p location length =>
    refine ⟨h.constants, ?_⟩
    rw [h.rest]
    rfl

end Symbols.Adds

namespace Progress

variable {p q p' : Progress} {c d : Cursor} {further : Table Text Literal} {x : Text}

/-- The second progress differs from the first one only by further constants. -/
structure Adds (further : Table Text Literal) (p q : Progress) : Prop where
  symbols : p.symbols.Adds further q.symbols
  rest : q = { p with symbols := q.symbols }

/-- A name that is taken remains so in a run. -/
theorem contains_of_run [NestingLimit] (hx : p.symbols.constants.contains x = true)
    (h : (p.run c).outcome = .ok q) : q.symbols.constants.contains x = true := by
  refine (run_preserves (I := fun p _ => p.symbols.constants.contains x = true) ?_ hx h).elim
    fun _ hq => hq
  intro p c p' c' hp hok
  obtain ⟨st, -, hrefusal, rfl⟩ := step_eq_ok_iff.1 hok
  cases st with
  | rule r => exact hp
  | declaration d => exact Symbols.contains_introduce hp
  | clause m => cases hrefusal

/-- A step that declares no further name is the same step with the further constants. -/
theorem Adds.step [NestingLimit] (h : p.Adds further p')
    (hfurther : ∀ b, further.get? (Text.ofBool b) = none)
    (hnew : ∀ x, q.symbols.constants.contains x = true → further.get? x = none)
    (hok : p.step.outcome c = .ok (q, d)) :
    ∃ q', p'.step.outcome c = .ok (q', d) ∧ q.Adds further q' := by
  obtain ⟨st, hread, hrefusal, rfl⟩ := step_eq_ok_iff.1 hok
  have hread' := Parser.statement_of_extends (h.symbols.scope hfurther) hread
  cases st with
  | rule r =>
    refine ⟨p'.extend (.rule r), step_eq_ok_iff.2 ⟨_, hread', rfl, rfl⟩, h.symbols, ?_⟩
    rw [h.rest]
    rfl
  | declaration decl =>
    have htakes : p'.symbols.takes decl = p.symbols.takes decl :=
      h.symbols.takes_eq fun x hx => hnew x (Symbols.contains_introduce_of_mem hx)
    have hmode : p'.symbols.redeclaration = p.symbols.redeclaration := by
      rw [h.symbols.rest]
    have hrefusal' : p'.refusal? (.declaration decl) = none := by
      rw [refusal?, Symbols.refuses, htakes, hmode]
      exact hrefusal
    refine ⟨_, step_eq_ok_iff.2 ⟨_, hread', hrefusal', rfl⟩, h.symbols.introduce decl, ?_⟩
    rw [h.rest]
    rfl
  | clause m => cases hrefusal

/-- Two runs that differ by further constants go in lock step if no further name is declared. -/
theorem Adds.run [NestingLimit] (h : p.Adds further p')
    (hfurther : ∀ b, further.get? (Text.ofBool b) = none)
    (hnew : ∀ x, q.symbols.constants.contains x = true → further.get? x = none)
    (hok : (p.run c).outcome = .ok q) :
    ∃ q', (p'.run c).outcome = .ok q' ∧ q.Adds further q' := by
  induction hn : c.remaining using Nat.strongRecOn generalizing p p' c with
  | ind n ih =>
    rw [outcome_run] at hok ⊢
    split at hok
    · next hend =>
      cases hok
      exact ⟨p', by rw [if_pos hend], h⟩
    · next hend =>
      obtain ⟨⟨q₁, d⟩, hfirst, hrest⟩ := bind_eq_ok.1 hok
      obtain ⟨q₁', hfirst', h₁⟩ :=
        h.step hfurther (fun x hx => hnew x (contains_of_run hx hrest)) hfirst
      rw [if_neg hend, hfirst', ok_bind]
      exact ih _ (hn ▸ remaining_lt_of_step hfirst) h₁ hrest rfl

end Progress

/-- The event codes are further constants of an empty table. -/
theorem Symbols.adds_initial (redeclaration : Bool) :
    (initial false redeclaration).Adds EventCode.constants (initial true redeclaration) where
  constants name := by
    rw [initial, initial, if_pos rfl, if_neg Bool.false_ne_true, Table.get?_empty, Option.none_or]
  rest := rfl

namespace EventCode

/-- The constants for event codes are those of the events of the bus. -/
theorem exists_of_constants {x : Text} {l : Literal} (h : constants.get? x = some l) :
    ∃ e ∈ all, x = e.name := by
  have hall : constants.All fun x _ => ∃ e ∈ all, x = e.name :=
    Table.All.ofList (List.forall_mem_map.2 fun e he => ⟨e, he, rfl⟩)
  exact hall.get? h

/-- No event code has the name of a truth value. -/
theorem constants_ofBool (b : Bool) : constants.get? (Text.ofBool b) = none := by
  have hnames : ∀ b, ∀ e ∈ all, Text.ofBool b ≠ e.name := by decide
  by_contra hcode
  obtain ⟨l, hl⟩ := Option.ne_none_iff_exists'.1 hcode
  obtain ⟨e, he, hname⟩ := exists_of_constants hl
  exact hnames b e he hname

end EventCode

namespace Options

/-- In a scope with further bindings, other than for truth values, every statement is read as it is
without them. So a program that compiles without the event codes, and declares none of their names,
compiles with them to the same configuration. -/
theorem compileText_eventCodes [NestingLimit] :
    (∀ s t : Scope, s.Extends t → ∀ (c : Cursor) (r : Statement × Cursor),
      (∀ form, (Parser.statementForm s form).outcome c = .ok r →
        (Parser.statementForm t form).outcome c = .ok r) ∧
      ((Parser.statement s).outcome c = .ok r → (Parser.statement t).outcome c = .ok r)) ∧
    ∀ (o : Options) (name text : Text) (p : Program),
      (({ o with eventCodes := false } : Options).compileText name text).outcome = .ok p →
      (∀ e ∈ EventCode.all, p.constants.contains e.name = false) →
      ∃ constants, (({ o with eventCodes := true } : Options).compileText name text).outcome =
        .ok { p with constants } := by
  refine ⟨fun s t h c r => ⟨fun form => ?_, Parser.statement_of_extends h⟩, ?_⟩
  · exact Parser.statementForm_of_extends h form trivial trivial
  · intro o name text p hok hnew
    rw [outcome_compileText] at hok ⊢
    obtain ⟨q, hrun, rfl⟩ := map_eq_ok.1 hok
    have hstart : ({ o with eventCodes := false } : Options).start.Adds EventCode.constants
        ({ o with eventCodes := true } : Options).start :=
      ⟨Symbols.adds_initial o.redeclaration, rfl⟩
    have hnew' : ∀ x, q.symbols.constants.contains x = true →
        EventCode.constants.get? x = none := by
      intro x hx
      by_contra hcode
      obtain ⟨l, hl⟩ := Option.ne_none_iff_exists'.1 hcode
      obtain ⟨e, he, rfl⟩ := EventCode.exists_of_constants hl
      exact Bool.false_ne_true ((hnew e he).symm.trans hx)
    obtain ⟨q', hrun', hadds⟩ := hstart.run EventCode.constants_ofBool hnew' hrun
    refine ⟨q'.symbols.constants, map_eq_ok.2 ⟨q', hrun', ?_⟩⟩
    rw [hadds.rest, hadds.symbols.rest]
    rfl

/-- A declaration in a scope with one more constant, and a program that declares no event code. -/
theorem compileText_eventCodes_lamp :
    let s : Scope := { constants := .ofList [("on", .bool true)] }
    let t : Scope := { s with constants := s.constants.insert "off" (.bool false) }
    let c := (⟨"", "let lamp = on;"⟩ : Source).start
    let text : Text := "const on = 7~u16; let lamp = on; set lamp to 1~u8 on on from 2~u16;"
    (s.Extends t ∧ ∃ r, (Parser.statement s).outcome c = .ok r ∧
      (Parser.statement t).outcome c = .ok r) ∧
    ∃ p constants, (({ eventCodes := false } : Options).compileText "" text).outcome = .ok p ∧
      p.config.processors.length = 1 ∧
      (({ eventCodes := true } : Options).compileText "" text).outcome =
        .ok { p with constants } := by
  intro s t c text
  have hextends : s.Extends t := by
    have hconstants : s.constants.All fun name l => t.constants.get? name = some l := by decide
    exact ⟨fun _ _ => hconstants.get?, nofun, fun b _ => by cases b <;> rfl⟩
  obtain ⟨r, hread, -⟩ := exists_of_toOption_map (f := fun r => r.2.offset) (b := 14)
    (x := (Parser.statement s).outcome c) (by decide +kernel)
  obtain ⟨p, hp, hparts⟩ := exists_of_toOption_map
    (f := fun p : Program => (p.config.processors.length,
      EventCode.all.all fun e => !p.constants.contains e.name))
    (b := (1, true)) (x := (({ eventCodes := false } : Options).compileText "" text).outcome)
    (by decide +kernel)
  obtain ⟨hcount, hnew⟩ := Prod.mk.inj hparts
  obtain ⟨constants, hp'⟩ := compileText_eventCodes.2 {} "" text p hp (by simpa using hnew)
  exact ⟨⟨hextends, r, hread, (compileText_eventCodes.1 s t hextends c r).2 hread⟩,
    p, constants, hp, hcount, hp'⟩

end Options

end EventRules
