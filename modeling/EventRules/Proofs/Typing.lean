/-
# Well-typed configurations

The kind of each datum, and the number and the types of the arguments of an item, are fixed by the
types of the configuration. What those types leave open is stated here: integers stay within the
limit of their width, the components of a colour are bytes, schedules are well formed, and strings
hold no double quote.

The limits are a parameter. With the numbers of integers of each width as limits, this is what it
means for a program to be well typed.
-/

import EventRules.Compile
import EventRules.Proofs.Schedule
import Mathlib.Algebra.Group.Nat.Defs

namespace EventRules

/-- The number of integers of a width. -/
def Width.size : Width → Nat
  | u8 => 2 ^ 8
  | u16 => 2 ^ 16
  | u32 => 2 ^ 32

/-- Reading keeps to the number of integers of a width. -/
theorem Width.size_eq (w : Width) : w.size = w.maximum + 1 := by
  cases w <;> rfl

/-- The limit of a width is one more than the largest number that is read for it. -/
theorem Width.lt_size_iff {w : Width} {n : Nat} : n < w.size ↔ n ≤ w.maximum := by
  rw [size_eq, Nat.lt_succ_iff]

/-- Every entry of a table has the property. -/
def Table.All {κ α : Type} [LT κ] (t : Table κ α) (P : κ → α → Prop) : Prop :=
  ∀ e ∈ t.entries, P e.1 e.2

namespace Table

variable {κ α : Type} [LT κ] {P : κ → α → Prop} {t : Table κ α} {key : κ} {value : α}

instance [∀ k a, Decidable (P k a)] : Decidable (t.All P) :=
  inferInstanceAs (Decidable (∀ e ∈ t.entries, P e.1 e.2))

theorem all_empty : (Table.empty : Table κ α).All P :=
  fun _ h => nomatch h

theorem mem_entries_of_get? [DecidableEq κ] (h : t.get? key = some value) :
    (key, value) ∈ t.entries := by
  obtain ⟨e, he, rfl⟩ := Option.map_eq_some_iff.1 h
  have hkey : e.1 = key := by simpa using List.find?_some he
  rw [← hkey]
  exact List.mem_of_find?_eq_some he

/-- What holds of all entries holds of the one that is found. -/
theorem All.get? [DecidableEq κ] (h : t.All P) (hget : t.get? key = some value) : P key value :=
  h _ (mem_entries_of_get? hget)

section Insert

variable [DecidableEq κ] [DecidableLT κ]
  [Trans (fun a b : κ => a < b) (fun a b : κ => a < b) (fun a b : κ => a < b)]
  [Std.Trichotomous (fun a b : κ => a < b)]

theorem All.insert (h : t.All P) (hnew : P key value) : (t.insert key value).All P := by
  intro e he
  rcases mem_insertEntry he with rfl | he
  · exact hnew
  · exact h e he

theorem All.ofList {bindings : List (κ × α)} (h : ∀ b ∈ bindings, P b.1 b.2) :
    (Table.ofList bindings).All P := by
  have ht : (empty : Table κ α).All P := all_empty
  rw [Table.ofList]
  generalize (empty : Table κ α) = t at ht ⊢
  induction bindings generalizing t with
  | nil => exact ht
  | cons b bs ih =>
    rw [List.forall_mem_cons] at h
    exact ih h.2 _ (ht.insert h.1)

/-- An insertion adds at most one entry. -/
theorem size_insert_le (t : Table κ α) (key : κ) (value : α) :
    (t.insert key value).size ≤ t.size + 1 := by
  suffices h : ∀ entries : List (κ × α),
      (insertEntry key value entries).length ≤ entries.length + 1 from h t.entries
  intro entries
  induction entries with
  | nil => exact Nat.le_refl _
  | cons e rest ih =>
    rw [insertEntry]
    split
    · simp
    · split
      · simp
      · simpa using ih

end Insert

section Order

variable [DecidableEq κ]

theorem get?_eq_none (h : ∀ e ∈ t.entries, e.1 ≠ key) : t.get? key = none := by
  rw [get?, Option.map_eq_none_iff, List.find?_eq_none]
  simpa using h

/-- A key beyond all others is inserted at the end. -/
theorem insertEntry_of_lt [DecidableLT κ] [Std.Asymm (fun a b : κ => a < b)]
    {entries : List (κ × α)} (h : ∀ e ∈ entries, e.1 < key) (value : α) :
    insertEntry key value entries = entries ++ [(key, value)] := by
  induction entries with
  | nil => rfl
  | cons e entries ih =>
    rw [List.forall_mem_cons] at h
    have hlt : ¬ key < e.1 := Std.Asymm.asymm _ _ h.1
    have hne : key ≠ e.1 := by
      intro heq
      exact hlt (heq ▸ h.1)
    rw [insertEntry, if_neg hne, if_neg hlt, ih h.2, List.cons_append]

end Order

end Table

/-! ### Data -/

/-- The components of a colour are bytes. -/
def Colour.Fits (c : Colour) : Prop :=
  ∀ n ∈ c.components, n < 256

instance (c : Colour) : Decidable c.Fits :=
  inferInstanceAs (Decidable (∀ n ∈ c.components, n < 256))

section Fits

variable (limit : Width → Nat)

/-- A literal fits: an integer lies below the limit of its width, the components of a colour are
bytes, and a string holds no double quote. -/
def Literal.Fits : Literal → Prop
  | int width n => n < limit width
  | bool _ => True
  | string t => '"' ∉ t
  | colour c => c.Fits

/-- A value fits as the literal for it does. -/
def Value.Fits : Value → Prop
  | int width n => n < limit width
  | bool _ => True
  | colour c => c.Fits

/-- A payload fits as the literal for it does. -/
def MessageValue.Fits : MessageValue → Prop
  | int width n => n < limit width
  | bool _ => True

/-- A brightness fits: it is a byte, or all its components are. -/
def BcmValue.Fits : BcmValue → Prop
  | single brightness => brightness < limit .u8
  | colour c => c.Fits

/-- An argument fits the type of its parameter. -/
def ParameterType.Fits : (p : ParameterType) → p.Argument → Prop
  | u8, n => n < limit .u8
  | u16, n | address, n => n < limit .u16
  | u32, n => n < limit .u32
  | bool, _ | relayValue, _ => True
  | value, v => v.Fits limit
  | messageValue, v => v.Fits limit
  | bcmValue, v => v.Fits limit
  | cron, c => c.WellFormed

instance : (l : Literal) → Decidable (l.Fits limit)
  | .int width n => inferInstanceAs (Decidable (n < limit width))
  | .bool _ => .isTrue trivial
  | .string t => inferInstanceAs (Decidable ('"' ∉ t))
  | .colour c => inferInstanceAs (Decidable c.Fits)

instance : (v : Value) → Decidable (v.Fits limit)
  | .int width n => inferInstanceAs (Decidable (n < limit width))
  | .bool _ => .isTrue trivial
  | .colour c => inferInstanceAs (Decidable c.Fits)

instance : (v : MessageValue) → Decidable (v.Fits limit)
  | .int width n => inferInstanceAs (Decidable (n < limit width))
  | .bool _ => .isTrue trivial

instance : (v : BcmValue) → Decidable (v.Fits limit)
  | .single n => inferInstanceAs (Decidable (n < limit .u8))
  | .colour c => inferInstanceAs (Decidable c.Fits)

instance : (p : ParameterType) → (a : p.Argument) → Decidable (p.Fits limit a)
  | .u8, n => inferInstanceAs (Decidable (n < limit .u8))
  | .u16, n | .address, n => inferInstanceAs (Decidable (n < limit .u16))
  | .u32, n => inferInstanceAs (Decidable (n < limit .u32))
  | .bool, _ | .relayValue, _ => .isTrue trivial
  | .value, v => inferInstanceAs (Decidable (Value.Fits limit v))
  | .messageValue, v => inferInstanceAs (Decidable (MessageValue.Fits limit v))
  | .bcmValue, v => inferInstanceAs (Decidable (BcmValue.Fits limit v))
  | .cron, c => inferInstanceAs (Decidable (Cron.WellFormed c))

/-- Arguments one by one, each with the type of its parameter. -/
def Arguments.toList : {ps : List ParameterType} → Arguments ps →
    List ((p : ParameterType) × p.Argument)
  | [], .nil => []
  | p :: _, .cons argument rest => ⟨p, argument⟩ :: rest.toList

theorem Arguments.map_fst_toList : {ps : List ParameterType} → (as : Arguments ps) →
    as.toList.map (·.1) = ps
  | [], .nil => rfl
  | _ :: _, .cons _ rest => congrArg _ rest.map_fst_toList

/-! ### Configurations -/

/-- An item has exactly the arguments that its name calls for, and each of them fits. -/
def Item.Fits {ν : Type} [ItemName ν] (i : Item ν) : Prop :=
  i.arguments.toList.map (·.1) = ItemName.parameters i.name ∧
    ∀ a ∈ i.arguments.toList, a.1.Fits limit a.2

/-- All items of a matcher fit. -/
def Matcher.Fits : Matcher → Prop
  | single extractor filter => extractor.Fits limit ∧ filter.Fits limit
  | and left right | or left right => left.Fits ∧ right.Fits
  | not inner => inner.Fits

/-- The items of a creator and those of its guard fit. -/
def Creator.Fits (c : Creator) : Prop :=
  c.extractor.Fits limit ∧ c.producer.Fits limit ∧ ∀ m, c.guard = some m → m.Fits limit

/-- The matcher and the creators of a rule fit. -/
def EventProcessor.Fits (p : EventProcessor) : Prop :=
  p.matcher.Fits limit ∧ ∀ c ∈ p.creators, c.Fits limit

/-- The shape of a peripheral fits, and its gateways have addresses. -/
def Peripheral.Fits (p : Peripheral) : Prop :=
  p.shape.Fits limit ∧ ∀ address ∈ p.gateways, address < limit .u16

/-- Everything in a configuration fits. -/
structure Config.Fits (c : Config) : Prop where
  initialState : c.initialState.All fun _ v => v.Fits limit
  processors : ∀ p ∈ c.processors, p.Fits limit
  peripherals : c.peripherals.All fun index p => index < limit .u32 ∧ p.Fits limit

instance {ν : Type} [ItemName ν] (i : Item ν) : Decidable (i.Fits limit) :=
  inferInstanceAs (Decidable (_ ∧ ∀ a ∈ i.arguments.toList, a.1.Fits limit a.2))

instance Matcher.decidableFits : (m : Matcher) → Decidable (m.Fits limit)
  | single e f => inferInstanceAs (Decidable (e.Fits limit ∧ f.Fits limit))
  | and l r | or l r => @instDecidableAnd _ _ l.decidableFits r.decidableFits
  | not m => m.decidableFits

instance (c : Creator) : Decidable (c.Fits limit) :=
  inferInstanceAs (Decidable (_ ∧ _ ∧ ∀ m, c.guard = some m → m.Fits limit))

instance (p : EventProcessor) : Decidable (p.Fits limit) :=
  inferInstanceAs (Decidable (_ ∧ ∀ c ∈ p.creators, c.Fits limit))

instance (p : Peripheral) : Decidable (p.Fits limit) :=
  inferInstanceAs (Decidable (_ ∧ ∀ address ∈ p.gateways, address < limit .u16))

instance (c : Config) : Decidable (c.Fits limit) :=
  decidable_of_iff
    ((c.initialState.All fun _ v => v.Fits limit) ∧ (∀ p ∈ c.processors, p.Fits limit) ∧
      c.peripherals.All fun index p => index < limit .u32 ∧ p.Fits limit)
    ⟨fun h => ⟨h.1, h.2.1, h.2.2⟩, fun h => ⟨h.1, h.2, h.3⟩⟩

/-- Everything in a program fits, its constants included. -/
structure Program.Fits (p : Program) : Prop where
  config : p.config.Fits limit
  constants : p.constants.All fun _ l => l.Fits limit

end Fits

/-- Every datum of the program is in the range of its type. -/
abbrev Program.WellTyped (p : Program) : Prop :=
  p.Fits Width.size

/-! ### Conversions -/

section Conversion

variable {limit : Width → Nat}

/-- A literal that fits converts to an argument that fits. -/
theorem ParameterType.fits_of_convert {p : ParameterType} {l : Literal} {a : p.Argument}
    (hl : l.Fits limit) (h : p.convert l = .ok a) : p.Fits limit a := by
  unfold convert at h
  split at h
  case h_1 | h_2 | h_3 | h_4 | h_6 | h_8 | h_9 | h_11 | h_12 =>
    cases h
    exact hl
  case h_5 | h_7 | h_10 | h_13 =>
    cases h
    trivial
  case h_14 => trivial
  case h_15 =>
    split at h
    · next hread =>
      cases h
      exact Cron.wellFormed_of_read hread
    · cases h
  case h_16 => cases h

end Conversion

end EventRules
