/-
# Programs are well typed

Every program that compiles is well typed. The invariant of a run is that everything taken in so far
fits, and that the slots in use and the characters ahead together do not exceed the number of
integers of 32 bits: a state variable takes a slot, and its declaration takes text.
-/

import EventRules.Proofs.Run

namespace EventRules

variable {limit : Width → Nat}

/-- Everything that the declarations so far have introduced fits. -/
structure Symbols.Fits (limit : Width → Nat) (s : Symbols) : Prop where
  scope : s.toScope.Fits limit
  initialState : s.initialState.All fun _ v => v.Fits limit
  peripherals : s.peripherals.All fun index p => index < limit .u32 ∧ p.Fits limit

/-- The table after a declaration fits if the declaration does and there is a literal for the slot
that it may take. -/
theorem Symbols.Fits.introduce {s : Symbols} {d : Declaration} (hs : s.Fits limit)
    (hd : d.Fits limit) (hslot : s.nextSlot < limit .u32) : (s.introduce d).Fits limit := by
  obtain ⟨⟨hconstants, hslots⟩, hstate, hperipherals⟩ := hs
  cases d with
  | constant name l location =>
    exact ⟨⟨hconstants.insert hd, hslots⟩, hstate, hperipherals⟩
  | state name v location =>
    exact ⟨⟨hconstants.insert hslot, hslots.insert hslot⟩, hstate.insert hd, hperipherals⟩
  | peripheral index p location length =>
    exact ⟨⟨hconstants, hslots⟩, hstate, hperipherals.insert hd⟩

/-- A declaration takes at most one slot. -/
theorem Symbols.nextSlot_introduce_le (s : Symbols) (d : Declaration) :
    (s.introduce d).nextSlot ≤ s.nextSlot + 1 := by
  cases d with
  | state name v location => exact s.initialState.size_insert_le _ _
  | constant name l location | peripheral index p location length => exact Nat.le_succ _

/-- Everything that the statements so far have led to fits. -/
structure Progress.Fits (limit : Width → Nat) (p : Progress) : Prop where
  symbols : p.symbols.Fits limit
  processors : ∀ r ∈ p.processors, r.Fits limit

namespace Progress

variable {p p' : Progress}

/-- A statement that fits keeps the progress within its limits, if there is a slot left. -/
theorem Fits.extend {s : Statement} (hp : p.Fits limit) (hs : s.Fits limit)
    (hslot : p.symbols.nextSlot < limit .u32) : (p.extend s).Fits limit := by
  cases s with
  | rule r =>
    refine ⟨hp.symbols, fun r' hr' => ?_⟩
    rcases List.mem_append.1 hr' with hr' | hr'
    · exact hp.processors r' hr'
    · obtain rfl := List.mem_singleton.1 hr'
      exact hs
  | clause m => exact hp
  | declaration d => exact ⟨hp.symbols.introduce hs hslot, hp.processors⟩

/-- A statement takes one slot at most. -/
theorem nextSlot_extend_le (p : Progress) (s : Statement) :
    (p.extend s).symbols.nextSlot ≤ p.symbols.nextSlot + 1 := by
  cases s with
  | rule r | clause m => exact Nat.le_succ _
  | declaration d => exact p.symbols.nextSlot_introduce_le d

/-- The invariant of a run: all fits, and there are literals for the slots in use and for as many
more as there are characters ahead. -/
def FitsAt (limit : Width → Nat) (p : Progress) (c : Cursor) : Prop :=
  p.Fits limit ∧ p.symbols.nextSlot + c.rest.length ≤ limit .u32

/-- A program fits if the progress that it comes from does. -/
theorem Fits.program (hp : p.Fits limit) (name : Text) : (p.program name).Fits limit where
  config := ⟨hp.symbols.initialState, hp.processors, hp.symbols.peripherals⟩
  constants := hp.symbols.scope.constants

/-- A step preserves the invariant. -/
theorem FitsAt.step [NestingLimit] (hlimit : ∀ w : Width, w.size ≤ limit w) {c c' : Cursor}
    (hp : p.FitsAt limit c) (h : p.step.outcome c.skipSpace = .ok (p', c')) :
    p'.FitsAt limit c' := by
  obtain ⟨hfits, hroom⟩ := hp
  -- the step takes at most one slot and at least one character
  have hconsumes := p.step_takes.consumes h
  have hskip := c.leads_skipSpace.length_le
  obtain ⟨s, hstatement, -, rfl⟩ := step_eq_ok_iff.1 h
  have hs := ((Parser.statement_takes hlimit _).yields hstatement).2 hfits.symbols.scope
  have hnext := p.nextSlot_extend_le s
  exact ⟨hfits.extend hs (by omega), by omega⟩

end Progress

namespace Options

/-- The start fits, since the event codes are numbers of 16 bits. -/
theorem fits_start (hlimit : ∀ w : Width, w.size ≤ limit w) (o : Options) :
    o.start.Fits limit := by
  have hcodes : ∀ e ∈ EventCode.all, e.code < Width.u16.size := by decide
  refine ⟨⟨⟨?_, Table.all_empty⟩, Table.all_empty, Table.all_empty⟩, fun _ h => nomatch h⟩
  change ConstantsFit limit (if o.eventCodes then EventCode.constants else .empty)
  split
  · refine Table.All.ofList (List.forall_mem_map.2 fun e he => ?_)
    exact Nat.lt_of_lt_of_le (hcodes e he) (hlimit .u16)
  · exact Table.all_empty

/-- A program that compiles fits limits that leave room for a slot per character. -/
theorem fits_of_compile [NestingLimit] (hlimit : ∀ w : Width, w.size ≤ limit w) {o : Options}
    {source : Source} {p : Program} (hlength : source.text.length ≤ limit .u32)
    (h : (o.compile source).outcome = .ok p) : p.Fits limit := by
  rw [outcome_compile] at h
  obtain ⟨q, hrun, rfl⟩ := map_eq_ok.1 h
  have hstart : o.start.FitsAt limit (bare source).start := by
    refine ⟨o.fits_start hlimit, ?_⟩
    change 0 + (Comment.blank source.text).length ≤ limit .u32
    rwa [Comment.length_blank, Nat.zero_add]
  obtain ⟨_, hend⟩ := Progress.run_preserves (fun _ _ _ _ hI => hI.step hlimit) hstart hrun
  exact hend.1.program _

/-- Whatever the options, a program that compiles from a text of fewer than 2 ^ 32 characters is
well typed. -/
theorem wellTyped_of_compileText [NestingLimit] (o : Options) (name text : Text) (p : Program)
    (hlength : text.length < Width.u32.size) (h : (o.compileText name text).outcome = .ok p) :
    p.WellTyped :=
  fits_of_compile (fun _ => Nat.le_refl _) (Nat.le_of_lt hlength) h

/-- A program in which the slot of a state variable serves as the index of a peripheral. -/
theorem wellTyped_of_lamp_program :
    ∃ p, (({ eventCodes := false } : Options).compileText "lamp"
        "let a = #ff00007f; pub(0xff~u16) peripheral a bcm single(1~u8); do \x7b match tick; \x7d"
        ).outcome = .ok p ∧ p.config.peripherals.size = 1 ∧ p.WellTyped :=
  (exists_of_toOption_map (by decide +kernel)).imp fun p h =>
    ⟨h.1, h.2, wellTyped_of_compileText _ _ _ p (by decide +kernel) h.1⟩

end Options

end EventRules
