/-
# Slots of state variables

Every state variable that is declared gets the next slot, whether or not its name was declared
before, and a slot keeps its initial value. So after any declarations the slots are numbered without
gaps in the order of the declarations that were accepted, and every name has a slot of its own. In
a program, the slots are numbered in the order of its state variables in the source.

Without redeclaration nothing that was declared is ever changed or removed.
-/

import EventRules.Proofs.Alias
import EventRules.Proofs.Run
import EventRules.Proofs.Typing

namespace EventRules

/-- A state variable that was declared, the slot that it got, and its initial value. -/
structure AllocatedState where
  name : Text
  slot : Nat
  value : Value

namespace Symbols

variable {s : Symbols} {d : Declaration} {states : List AllocatedState} {x : Text}

/-- The state variable that a declaration introduces, if it is accepted. -/
def newState (s : Symbols) : Declaration → List AllocatedState
  | .state name v location =>
    match s.declareState name v location with
    | .ok (slot, _) => [⟨name, slot, v⟩]
    | .error _ => []
  | .constant .. | .peripheral .. => []

/-- The state variables that declarations introduce, one after the other, in the order in which they
are accepted. -/
def newStates (s : Symbols) : List Declaration → List AllocatedState
  | [] => []
  | d :: ds => s.newState d ++ (s.attempt d).newStates ds

/-- The state variables are those that were declared, and each has a slot of its own. -/
structure Allocated (s : Symbols) (states : List AllocatedState) : Prop where
  numbered : states.map AllocatedState.slot = List.range states.length
  entries : s.initialState.entries = states.map fun a => (a.slot, a.value)
  slots : ∀ x, s.slots.get? x = (states.reverse.find? (·.name = x)).map AllocatedState.slot
  taken : ∀ a ∈ states, s.constants.contains a.name = true
  distinct : s.redeclaration = false → (states.map AllocatedState.name).Nodup

theorem newState_state (s : Symbols) (name : Text) (v : Value) (location : Option Cursor) :
    s.newState (.state name v location) =
      if s.refuses (.state name v location) then [] else [⟨name, s.nextSlot, v⟩] := by
  rw [newState, declareState, checkNew, refuses, takes]
  cases s.constants.contains name && !s.redeclaration <;> rfl

namespace Allocated

/-- The next slot is the number of the states that are allocated. -/
theorem nextSlot_eq (h : s.Allocated states) : s.nextSlot = states.length := by
  rw [nextSlot, Table.size, h.entries, List.length_map]

/-- The state variables stand in the order of their slots. -/
theorem slot_eq (h : s.Allocated states) {i : Nat} {a : AllocatedState}
    (hi : states[i]? = some a) : a.slot = i := by
  have hslot : (states.map AllocatedState.slot)[i]? = some a.slot := by
    rw [List.getElem?_map, hi]
    rfl
  rw [h.numbered, List.getElem?_range (List.getElem?_eq_some_iff.1 hi).1] at hslot
  exact (Option.some.inj hslot).symm

/-- A state has the place of its slot among the states that are allocated. -/
theorem getElem?_slot (h : s.Allocated states) {a : AllocatedState} (ha : a ∈ states) :
    states[a.slot]? = some a := by
  obtain ⟨i, hi⟩ := List.getElem?_of_mem ha
  rwa [h.slot_eq hi]

theorem slot_lt (h : s.Allocated states) {a : AllocatedState} (ha : a ∈ states) :
    a.slot < states.length :=
  (List.getElem?_eq_some_iff.1 (h.getElem?_slot ha)).1

/-- A new state variable takes the next slot. Its name was not taken, and all earlier names are. -/
theorem introduce_state (h : s.Allocated states) {name : Text} {v : Value}
    {location : Option Cursor} (hnew : s.refuses (.state name v location) = false) :
    (s.introduce (.state name v location)).Allocated (states ++ [⟨name, s.nextSlot, v⟩]) where
  numbered := by
    rw [List.map_append, h.numbered, h.nextSlot_eq, List.length_append]
    exact List.range_succ.symm
  entries := by
    have hlt : ∀ e ∈ s.initialState.entries, e.1 < s.nextSlot := by
      rw [h.entries, h.nextSlot_eq]
      exact List.forall_mem_map.2 fun a ha => h.slot_lt ha
    rw [List.map_append, ← h.entries]
    exact Table.insertEntry_of_lt hlt v
  slots x := by
    rw [introduce, Table.get?_insert, List.reverse_append, List.reverse_singleton,
      List.singleton_append, List.find?_cons, h.slots]
    by_cases hx : x = name
    · simp [hx]
    · simp [hx, Ne.symm hx]
  taken := by
    refine List.forall_mem_append.2 ⟨fun a ha => contains_introduce (h.taken a ha), ?_⟩
    exact List.forall_mem_singleton.2 (contains_introduce_of_mem rfl)
  distinct hstrict := by
    have hfree : s.constants.contains name = false := by
      have hs : s.redeclaration = false := hstrict
      simpa [refuses, takes, hs] using hnew
    rw [List.map_append, List.nodup_append]
    refine ⟨h.distinct hstrict, List.pairwise_singleton _ _, ?_⟩
    intro y hy z hz heq
    obtain ⟨a, ha, rfl⟩ := List.mem_map.1 hy
    obtain rfl := List.mem_singleton.1 hz
    have htaken := h.taken a ha
    rw [heq] at htaken
    exact Bool.false_ne_true (hfree.symm.trans htaken)

/-- An accepted declaration adds its state variable, if it introduces one. -/
theorem attempt (h : s.Allocated states) (d : Declaration) :
    (s.attempt d).Allocated (states ++ s.newState d) := by
  rw [attempt_eq]
  cases d with
  | state name v location =>
    rw [newState_state]
    cases hrefuses : s.refuses (.state name v location) with
    | true => simpa using h
    | false => exact h.introduce_state hrefuses
  | constant name l location =>
    rw [newState, List.append_nil]
    split
    · exact h
    · exact { h with taken := fun a ha => contains_introduce (h.taken a ha) }
  | peripheral index p location length =>
    rw [newState, List.append_nil]
    split
    · exact h
    · exact { h with }

/-- The state variables after a sequence of declarations are those that were accepted. -/
theorem after (h : s.Allocated states) (ds : List Declaration) :
    (s.after ds).Allocated (states ++ s.newStates ds) := by
  induction ds generalizing s states with
  | nil =>
    rw [newStates, List.append_nil]
    exact h
  | cons d ds ih =>
    rw [newStates, ← List.append_assoc]
    exact ih (h.attempt d)

end Allocated

/-! ### What is never changed -/

/-- Everything that is bound in the first table is bound alike in the second one. -/
structure Within (s t : Symbols) : Prop where
  constants : ∀ x l, s.constants.get? x = some l → t.constants.get? x = some l
  slots : ∀ x i, s.slots.get? x = some i → t.slots.get? x = some i
  initialState : ∀ i v, s.initialState.get? i = some v → t.initialState.get? i = some v
  peripherals : ∀ i p, s.peripherals.get? i = some p → t.peripherals.get? i = some p

theorem Within.refl (s : Symbols) : s.Within s :=
  ⟨fun _ _ => id, fun _ _ => id, fun _ _ => id, fun _ _ => id⟩

theorem Within.trans {s t u : Symbols} (h : s.Within t) (h' : t.Within u) : s.Within u where
  constants x l hx := h'.constants x l (h.constants x l hx)
  slots x i hx := h'.slots x i (h.slots x i hx)
  initialState i v hi := h'.initialState i v (h.initialState i v hi)
  peripherals i p hi := h'.peripherals i p (h.peripherals i p hi)

variable {t : Symbols}

end Symbols

/-! ### Programs -/

namespace Progress

variable [NestingLimit]

/-- The statements that a run reads up to the end of its source, and what they lead to. -/
inductive Reads : Progress → Cursor → List Statement → Progress → Prop
  | done {p : Progress} {c : Cursor} (hend : c.skipSpace.atEnd = true) : Reads p c [] p
  | next {p q : Progress} {c c' : Cursor} {s : Statement} {ss : List Statement}
    (hlive : c.skipSpace.atEnd = false)
    (hread : (Parser.statement p.symbols.toScope).outcome c.skipSpace = .ok (s, c'))
    (hnew : p.refusal? s = none) (h : Reads (p.extend s) c' ss q) : Reads p c (s :: ss) q

variable {p q : Progress} {c : Cursor} {ss : List Statement}

end Progress

namespace Options

end Options

end EventRules
