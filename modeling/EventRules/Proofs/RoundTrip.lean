/-
# Every configuration has a program

A well-formed configuration is written out as a program: a state variable for each slot, a
declaration for each peripheral and a block for each rule. The program compiles to the
configuration.
-/

import EventRules.Proofs.Comments
import EventRules.Proofs.WrittenProgram

namespace EventRules

/-! ### Written text without slashes -/

theorem Text.IsName.plain {t : Text} (h : t.IsName) : t.Plain :=
  fun hslash => absurd (h.2 _ hslash) (by decide)

/-- A literal holds no slash, unless it is a string that does. -/
theorem Literal.plain_text {l : Literal} (h : ∀ t, l = .string t → t.Plain) : l.text.Plain := by
  cases l with
  | bool b => cases b <;> decide
  | int width n =>
    have hdigits : (Text.hex n).Plain := fun hslash =>
      absurd (Text.isHexDigit_of_mem_hex hslash) (by decide)
    exact .append (.append (.append (by decide) hdigits) (by decide)) (by cases width <;> decide)
  | string t => exact .append (.append (by decide) (h t rfl)) (by decide)
  | colour c =>
    refine .append (by decide) (.flatMap fun n _ hslash => ?_)
    exact absurd (Text.isHexDigit_of_mem_hexPadded hslash) (by decide)

/-- The text of an argument holds no slash. A schedule is digits, commas and stars, with spaces
between. -/
theorem ParameterType.plain_literal (p : ParameterType) (a : p.Argument) :
    (p.literal a).text.Plain := by
  refine Literal.plain_text fun t ht => ?_
  cases p with
  | u8 | u16 | address | u32 | bool => cases ht
  | value => cases a <;> cases ht
  | messageValue => cases a <;> cases ht
  | bcmValue => cases a <;> cases ht
  | relayValue =>
    cases a with
    | single b => cases ht
    | pair state =>
      cases ht
      cases state <;> decide
  | cron =>
    cases ht
    intro hslash
    obtain hspace | ⟨t, ht, hslash⟩ := Text.mem_join hslash
    · exact absurd hspace (by decide)
    · obtain ⟨f, -, rfl⟩ := List.mem_map.1 ht
      rcases CronField.mem_text hslash with hdigit | hcomma | hstar
      · exact absurd hdigit (by decide)
      · exact absurd hcomma (by decide)
      · exact absurd hstar (by decide)

theorem Literal.plain_listText {ls : List Literal} (h : ∀ l ∈ ls, l.text.Plain) :
    (listText ls).Plain := by
  refine .cons (by decide) (.append (fun hslash => ?_) (by decide))
  obtain hcomma | ⟨t, ht, hslash⟩ := Text.mem_join hslash
  · exact absurd hcomma (by decide)
  · obtain ⟨l, hl, rfl⟩ := List.mem_map.1 ht
    exact h l hl hslash

theorem Item.plain_written {ν : Type} [ItemName ν] (i : Item ν)
    (hname : (ItemName.spelling i.name).IsName) : i.written.Plain := by
  refine .append hname.plain (.append (Literal.plain_listText ?_) (by decide))
  exact List.forall_mem_map.2 fun a _ => a.1.plain_literal a.2

/-- The text of a matcher holds no slash. -/
theorem Matcher.plain_written (m : Matcher) : m.written.Plain := by
  induction m with
  | single e f =>
    exact .append (t := ['{', ' ']) (by decide) (.append (e.plain_written (Spelled.isName _))
      (.cons (by decide) (.append (f.plain_written (Spelled.isName _)) (by decide))))
  | and l r ihl ihr | or l r ihl ihr =>
    exact .append (by decide) (.append (by decide) (.cons (by decide) (.append ihl
      (.append (t := [',', ' ']) (by decide) (.append ihr (by decide))))))
  | not m ih =>
    exact .append (by decide) (.append (by decide) (.cons (by decide) (.append ih (by decide))))

theorem Matcher.plain_clause (m : Matcher) : m.clause.Plain :=
  .append (by decide) (.cons (by decide) m.plain_written)

theorem Creator.plain_written (c : Creator) : c.written.Plain := by
  refine .append (by decide) (.append (by decide) (.cons (by decide)
    (.append (c.extractor.plain_written (Spelled.isName _)) (.cons (by decide)
      (.append (c.producer.plain_written (Spelled.isName _)) (.append (by decide) ?_))))))
  cases c.guard with
  | none => decide
  | some m => exact .append (by decide) (.cons (by decide) m.plain_clause)

theorem EventProcessor.plain_written (p : EventProcessor) : p.written.Plain :=
  .append (by decide) (.append (by decide) (.append (.cons (by decide) p.matcher.plain_clause)
    (.append (.flatMap fun c _ => .cons (by decide) c.plain_written) (by decide))))

/-- The text of a peripheral holds no slash. -/
theorem Peripheral.plain_written (index : Nat) (p : Peripheral) :
    (gatewayText p.gateways ++ p.bodyText index).Plain := by
  refine .append ?_ (.append (by decide) (.append (by decide)
    (.append (ParameterType.u32.plain_literal index) (.append (by decide)
      (.append (Family.isName_keyword _).plain (.append (by decide)
        (p.shape.plain_written (ShapeName.isName_spelling _))))))))
  cases p.gateways with
  | nil => decide
  | cons n ns =>
    refine .append (by decide) (.append (Literal.plain_listText ?_) (by decide))
    exact List.forall_mem_map.2 fun n _ => ParameterType.u16.plain_literal n

/-! ### Names for slots -/

/-- A name for each slot: names that can be declared, distinct, and not those of bus events. -/
structure Naming where
  name : Nat → Text
  isFreshName : ∀ i, (name i).IsFreshName
  unpredefined : ∀ i, EventCode.constants.get? (name i) = none
  injective : ∀ i j, name i = name j → i = j

/-- The slots named by a letter and their number. -/
def Naming.numbered : Naming where
  name i := 's' :: Text.decimal i
  isFreshName i := by
    have hdigit : ∀ c ∈ Text.decimal i, isNameChar c := fun c hc =>
      isNameChar_of_isDigit (Text.isDigit_of_mem_decimal hc)
    refine ⟨⟨Text.starts_cons.2 (by decide), ?_⟩, fun b => ?_⟩
    · exact List.forall_mem_cons.2 ⟨by decide, hdigit⟩
    cases b <;> exact fun h => absurd (List.cons.inj h).1 (by decide)
  unpredefined i := by
    refine Table.get?_eq_none fun e he heq => ?_
    have hinitial : EventCode.constants.All fun name _ => name.head? ≠ some 's' := by
      decide +kernel
    exact hinitial e he (heq ▸ rfl)
  injective _ _ h := Text.decimal_injective (List.cons.inj h).2

/-- The state variable for a slot. -/
def Naming.state (naming : Naming) (entry : Nat × Value) : Statement :=
  .declaration (.state (naming.name entry.1) entry.2 none)

/-- The declaration of a peripheral. -/
def Peripheral.statement (entry : Nat × Peripheral) : Statement :=
  .declaration (.peripheral entry.1 entry.2 none 0)

namespace Config

/-- The statements that make up a configuration: its slots in order, its peripherals, its rules. -/
def statements (naming : Naming) (c : Config) : List Statement :=
  c.initialState.entries.map naming.state ++ c.peripherals.entries.map Peripheral.statement ++
    c.processors.map .rule

/-- The program text of a configuration. -/
def written (naming : Naming) (c : Config) : Text :=
  Statement.lines (c.statements naming)

/-- The slots are numbered from zero on, every datum is in the range of its type, every item has the
arguments that its name calls for, and matchers are not nested too deeply. -/
structure WellFormed [NestingLimit] (c : Config) : Prop where
  slots : c.initialState.entries.map (·.1) = List.range c.initialState.size
  fits : c.Fits Width.size
  levels : ∀ p ∈ c.processors, p.Within NestingLimit.levels

instance [NestingLimit] (c : Config) : Decidable c.WellFormed :=
  decidable_of_iff
    (c.initialState.entries.map (·.1) = List.range c.initialState.size ∧ c.Fits Width.size ∧
      ∀ p ∈ c.processors, p.Within NestingLimit.levels)
    ⟨fun h => ⟨h.1, h.2.1, h.2.2⟩, fun h => ⟨h.1, h.2, h.3⟩⟩

end Config

namespace Progress

section States

variable {naming : Naming} {p : Progress} {v : Value}

/-- A state variable with a name that is not taken is declared. -/
theorem refusal?_state {slot : Nat} (hfree : p.symbols.constants.get? (naming.name slot) = none) :
    p.refusal? (naming.state (slot, v)) = none := by
  have hcontains : p.symbols.constants.contains (naming.name slot) = false := by
    rw [Table.contains, hfree]
    rfl
  simp [refusal?, Naming.state, Symbols.refuses, Symbols.takes, hcontains]

variable (hslots : ∀ e ∈ p.symbols.initialState.entries, e.1 < p.symbols.nextSlot)

include hslots

/-- A state variable gets the next slot. -/
theorem entries_extend_state (slot : Nat) :
    (p.extend (naming.state (slot, v))).symbols.initialState.entries =
      p.symbols.initialState.entries ++ [(p.symbols.nextSlot, v)] :=
  Table.insertEntry_of_lt hslots v

theorem nextSlot_extend_state (slot : Nat) :
    (p.extend (naming.state (slot, v))).symbols.nextSlot = p.symbols.nextSlot + 1 := by
  rw [Symbols.nextSlot, Table.size, entries_extend_state hslots, List.length_append]
  rfl

theorem lt_nextSlot_extend_state (slot : Nat) :
    ∀ e ∈ (p.extend (naming.state (slot, v))).symbols.initialState.entries,
      e.1 < (p.extend (naming.state (slot, v))).symbols.nextSlot := by
  rw [entries_extend_state hslots, nextSlot_extend_state hslots]
  intro e he
  rcases List.mem_append.1 he with he | he
  · exact Nat.lt_succ_of_lt (hslots e he)
  · rw [List.mem_singleton.1 he]
    exact Nat.lt_succ_self _

end States

/-- State variables in the next slots are taken in, in order. -/
theorem addAll_states (naming : Naming) (es : List (Nat × Value)) {p : Progress}
    (hkeys : es.map (·.1) = List.range' p.symbols.nextSlot es.length)
    (hslots : ∀ e ∈ p.symbols.initialState.entries, e.1 < p.symbols.nextSlot)
    (hfree : ∀ i, p.symbols.nextSlot ≤ i → p.symbols.constants.get? (naming.name i) = none) :
    ∃ q, p.addAll (es.map naming.state) = .ok q ∧
      q.symbols.initialState.entries = p.symbols.initialState.entries ++ es ∧
      q.symbols.peripherals = p.symbols.peripherals ∧ q.processors = p.processors ∧
      q.statementCount = p.statementCount + es.length := by
  induction es generalizing p with
  | nil => exact ⟨p, rfl, by simp, rfl, rfl, rfl⟩
  | cons e es ih =>
    obtain ⟨slot, v⟩ := e
    rw [List.map_cons, List.length_cons, List.range'_succ] at hkeys
    obtain ⟨rfl, htail⟩ := List.cons.inj hkeys
    have hnext : (p.extend (naming.state (p.symbols.nextSlot, v))).symbols.nextSlot =
        p.symbols.nextSlot + 1 := nextSlot_extend_state hslots _
    have hstill : ∀ i, p.symbols.nextSlot + 1 ≤ i →
        (p.extend (naming.state (p.symbols.nextSlot, v))).symbols.constants.get?
          (naming.name i) = none := by
      -- the name that was just taken is that of no later slot
      intro i hi
      have hne : naming.name i ≠ naming.name p.symbols.nextSlot := by
        intro heq
        have := naming.injective _ _ heq
        omega
      exact (Table.get?_insert ..).trans ((if_neg hne).trans (hfree i (by omega)))
    obtain ⟨q, hq, hstate, hperipherals, hprocessors, hcount⟩ :=
      ih (p := p.extend (naming.state (p.symbols.nextSlot, v))) (by rwa [hnext])
        (lt_nextSlot_extend_state hslots _) (by rwa [hnext])
    have hnew := refusal?_state (v := v) (hfree _ (Nat.le_refl _))
    refine ⟨q, (addAll_cons hnew _).trans hq, ?_, hperipherals, hprocessors, ?_⟩
    · rw [hstate, entries_extend_state hslots, List.append_assoc]
      rfl
    · rw [hcount, List.length_cons]
      change p.statementCount + 1 + es.length = _
      omega

/-- Peripherals in ascending order of their indices are taken in after those before them. -/
theorem addAll_peripherals (es : List (Nat × Peripheral)) {p : Progress}
    (hes : (p.symbols.peripherals.entries ++ es).Pairwise fun a b => a.1 < b.1) :
    ∃ q, p.addAll (es.map Peripheral.statement) = .ok q ∧
      q.symbols.peripherals.entries = p.symbols.peripherals.entries ++ es ∧
      q.symbols.initialState = p.symbols.initialState ∧ q.processors = p.processors ∧
      q.statementCount = p.statementCount + es.length := by
  induction es generalizing p with
  | nil => exact ⟨p, rfl, by simp, rfl, rfl, rfl⟩
  | cons e es ih =>
    have hbefore : ∀ d ∈ p.symbols.peripherals.entries, d.1 < e.1 := fun d hd =>
      (List.pairwise_append.1 hes).2.2 d hd e (List.mem_cons_self ..)
    have hnew : p.refusal? (Peripheral.statement e) = none := by
      have hcontains : p.symbols.peripherals.contains e.1 = false := by
        rw [Table.contains, Table.get?_eq_none fun d hd => Nat.ne_of_lt (hbefore d hd)]
        rfl
      simp [refusal?, Peripheral.statement, Symbols.refuses, Symbols.takes, hcontains]
    have hentries : (p.extend (Peripheral.statement e)).symbols.peripherals.entries =
        p.symbols.peripherals.entries ++ [e] :=
      Table.insertEntry_of_lt hbefore e.2
    obtain ⟨q, hq, hperipherals, hstate, hprocessors, hcount⟩ :=
      ih (p := p.extend (Peripheral.statement e)) (by rwa [hentries, List.append_assoc])
    refine ⟨q, (addAll_cons hnew _).trans hq, ?_, hstate, hprocessors, ?_⟩
    · rw [hperipherals, hentries, List.append_assoc]
      rfl
    · rw [hcount, List.length_cons]
      change p.statementCount + 1 + es.length = _
      omega

/-- Rules are taken in after those before them. -/
theorem addAll_rules (rs : List EventProcessor) (p : Progress) :
    p.addAll (rs.map .rule) = .ok { p with
      processors := p.processors ++ rs
      statementCount := p.statementCount + rs.length } := by
  induction rs generalizing p with
  | nil => simp [addAll]
  | cons r rs ih =>
    rw [List.map_cons, addAll_cons rfl, ih]
    simp [extend, Nat.add_assoc, Nat.add_comm 1]

end Progress

namespace Config

variable {naming : Naming} {c : Config}

/-- Taking in the statements of a well-formed configuration makes up the configuration. -/
theorem addAll_statements [NestingLimit] (naming : Naming) (h : c.WellFormed) :
    ∃ q, ({} : Options).start.addAll (c.statements naming) = .ok q ∧ q.config = c ∧
      q.statementCount = (c.statements naming).length := by
  obtain ⟨p, hp, hstate, hperipherals, hprocessors, hcount⟩ :=
    Progress.addAll_states naming c.initialState.entries (p := ({} : Options).start)
      (by rw [h.slots, List.range_eq_range']; rfl) (fun _ he => nomatch he)
      fun i _ => naming.unpredefined i
  obtain ⟨q, hq, hperipherals', hstate', hprocessors', hcount'⟩ :=
    Progress.addAll_peripherals c.peripherals.entries
      (by rw [hperipherals]; exact c.peripherals.ascending)
  -- each of the three groups leaves alone what the others have built
  rw [hperipherals] at hperipherals'
  rw [← hstate'] at hstate
  refine ⟨{ q with
    processors := q.processors ++ c.processors
    statementCount := q.statementCount + c.processors.length }, ?_, ?_, ?_⟩
  · rw [statements, Progress.addAll_append, Progress.addAll_append, hp, ok_bind, hq, ok_bind,
      Progress.addAll_rules]
  · have hstart : q.processors = [] := hprocessors'.trans hprocessors
    obtain ⟨state, rules, peripherals⟩ := c
    simp only [Progress.config, Config.mk.injEq]
    refine ⟨Table.ext_entries hstate, ?_, Table.ext_entries hperipherals'⟩
    rw [hstart, List.nil_append]
  · simp only [statements, List.length_append, List.length_map]
    rw [hcount', hcount]
    change 0 + _ + _ + _ = _
    omega

/-- The statements of a configuration that is well formed can be written and read. -/
theorem WellFormed.writable [NestingLimit] (h : c.WellFormed) :
    ∀ s ∈ c.statements naming, s.Writable := by
  intro s hs
  rw [statements, List.mem_append, List.mem_append] at hs
  rcases hs with (hs | hs) | hs
  · obtain ⟨e, he, rfl⟩ := List.mem_map.1 hs
    exact ⟨naming.isFreshName e.1, h.fits.initialState e he⟩
  · obtain ⟨e, he, rfl⟩ := List.mem_map.1 hs
    exact h.fits.peripherals e he
  · obtain ⟨p, hp, rfl⟩ := List.mem_map.1 hs
    exact ⟨h.fits.processors p hp, h.levels p hp⟩

/-- The text of a configuration holds no slash, and so no comment. -/
theorem plain_written (naming : Naming) (c : Config) : (c.written naming).Plain := by
  refine .flatMap fun s hs => .append ?_ (by decide)
  rw [statements, List.mem_append, List.mem_append] at hs
  rcases hs with (hs | hs) | hs
  · obtain ⟨e, -, rfl⟩ := List.mem_map.1 hs
    exact .append (by decide) (.cons (by decide) (.append (naming.isFreshName e.1).1.plain
      (.append (by decide) (.cons (by decide)
        (.append (ParameterType.value.plain_literal e.2) (by decide))))))
  · obtain ⟨e, -, rfl⟩ := List.mem_map.1 hs
    exact e.2.plain_written e.1
  · obtain ⟨p, -, rfl⟩ := List.mem_map.1 hs
    exact p.plain_written

/-- The program text of a well-formed configuration compiles to the configuration, by a statement
for each slot, peripheral and rule. -/
theorem compileText_written [NestingLimit] (naming : Naming) (c : Config) (h : c.WellFormed)
    (name : Text) :
    ∃ p, (({} : Options).compileText name (c.written naming)).outcome = .ok p ∧ p.config = c ∧
      p.statementCount = c.initialState.size + c.peripherals.size + c.processors.length := by
  obtain ⟨q, hq, hconfig, hcount⟩ := addAll_statements naming h
  have hclear : ({} : Options).start.symbols.constants.SparesBooleans := by
    intro b
    cases b <;> decide +kernel
  have hrun (name : Text) : (({} : Options).start.run
      (Options.bare ⟨name, c.written naming⟩).start).outcome = .ok q :=
    Progress.run_written hclear h.writable hq (Cursor.inSource_start _)
      (Comment.blank_of_plain (plain_written naming c))
  rw [Options.compileText, Options.outcome_compile, hrun]
  refine ⟨_, rfl, hconfig, hcount.trans ?_⟩
  simp only [statements, List.length_append, List.length_map]
  rfl

/-- A lamp by a porch: at dusk, unless it was touched, it is lit, and the gateways are told. -/
def porch : Config where
  initialState := .ofList [(0, .bool false), (1, .int .u16 0xffff), (2, .colour (.rgb 255 0 0 127))]
  processors :=
    [{ matcher := .and
          (.not (.single ⟨.eventCode, .nil⟩ ⟨.valueEqualToConst, .cons (.int .u16 7) .nil⟩))
          (.single ⟨.nothing, .nil⟩ ⟨.timeMatchesCron, .cons
            ⟨.only [0], .only [0, 30], .only [17, 18], .any, .only [11, 12], .any, .any⟩ .nil⟩)
       creators := [
        { extractor := ⟨.nothing, .nil⟩
          producer := ⟨.bcmChangeBrightness, .cons 9 (.cons 1 (.cons (.single 200) .nil))⟩
          guard := some (.or (.single ⟨.nothing, .nil⟩ ⟨.flipState, .cons 0 .nil⟩)
            (.single ⟨.packet, .nil⟩ ⟨.stateMoreThanConst, .cons 1 (.cons (.int .u16 8) .nil)⟩)) },
        { extractor := ⟨.packet, .nil⟩
          producer := ⟨.relaySetValue, .cons 9 (.cons 2 (.cons (.pair .first) .nil))⟩
          guard := none }] },
     { matcher := .single ⟨.buttonIndex, .nil⟩ ⟨.valueEqualToConst, .cons (.bool true) .nil⟩
       creators := [] }]
  peripherals := .ofList
    [(1, ⟨⟨.bcmSingle, .cons 3 .nil⟩, [0xff, 0x100]⟩),
     (2, ⟨⟨.relayDoubleExclusive, .cons 4 (.cons 5 .nil)⟩, []⟩)]

/-- A porch with a lamp is written as a program of seven statements, which compiles to it. -/
theorem compileText_written_porch :
    porch.WellFormed ∧ ∃ p,
      (({} : Options).compileText "porch" (porch.written .numbered)).outcome = .ok p ∧
        p.config = porch ∧ p.statementCount = 7 :=
  have h : porch.WellFormed := by decide +kernel
  ⟨h, compileText_written .numbered porch h "porch"⟩

end Config

end EventRules
