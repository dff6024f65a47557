/-
# Tables

A table is a finite map whose entries stand in ascending order of their keys. The order is part of
the type, so a table has one representation, and two tables with the same entries are equal.
-/

namespace EventRules

/-- A finite map from `κ` to `α`, its entries in strictly ascending order of their keys. -/
structure Table (κ α : Type) [LT κ] where
  entries : List (κ × α)
  ascending : entries.Pairwise fun a b => a.1 < b.1

namespace Table

variable {κ α : Type} [LT κ]

/-- The table without entries. -/
def empty : Table κ α where
  entries := []
  ascending := .nil

instance : Inhabited (Table κ α) := ⟨empty⟩

instance [DecidableEq κ] [DecidableEq α] : DecidableEq (Table κ α) := fun s t =>
  if h : s.entries = t.entries then
    .isTrue (by cases s; cases t; cases h; rfl)
  else
    .isFalse fun e => h (e ▸ rfl)

/-- Two tables with the same entries are the same table. -/
@[ext]
theorem ext_entries {s t : Table κ α} (h : s.entries = t.entries) : s = t := by
  cases s; cases t; cases h; rfl

/-- The number of entries. -/
def size (t : Table κ α) : Nat :=
  t.entries.length

section Lookup

variable [DecidableEq κ]

/-- What a key is bound to. -/
def get? (t : Table κ α) (key : κ) : Option α :=
  (t.entries.find? (·.1 = key)).map (·.2)

/-- Whether a key is bound. -/
def contains (t : Table κ α) (key : κ) : Bool :=
  (t.get? key).isSome

@[simp]
theorem get?_empty (k : κ) : (empty : Table κ α).get? k = none := rfl

end Lookup

section Insert

variable [DecidableEq κ] [DecidableLT κ]

/-- Puts an entry in its place among entries in ascending order, over an entry of the same key. -/
def insertEntry (key : κ) (value : α) : List (κ × α) → List (κ × α)
  | [] => [(key, value)]
  | (k, v) :: rest =>
    if key = k then (key, value) :: rest
    else if key < k then (key, value) :: (k, v) :: rest
    else (k, v) :: insertEntry key value rest

theorem mem_insertEntry {key : κ} {value : α} {entries : List (κ × α)} {e : κ × α}
    (h : e ∈ insertEntry key value entries) : e = (key, value) ∨ e ∈ entries := by
  induction entries with
  | nil => simpa [insertEntry] using h
  | cons head rest ih =>
    rw [insertEntry] at h
    split at h
    · rcases List.mem_cons.1 h with h | h
      · exact .inl h
      · exact .inr (List.mem_cons_of_mem _ h)
    · split at h
      · simpa using h
      · rcases List.mem_cons.1 h with rfl | h
        · exact .inr (List.mem_cons_self ..)
        · exact (ih h).imp id (List.mem_cons_of_mem _)

variable
  [Trans (fun a b : κ => a < b) (fun a b : κ => a < b) (fun a b : κ => a < b)]
  [Std.Trichotomous (fun a b : κ => a < b)]

/-- Insertion keeps the entries sorted by their keys. -/
theorem pairwise_insertEntry (key : κ) (value : α) {entries : List (κ × α)}
    (h : entries.Pairwise fun a b => a.1 < b.1) :
    (insertEntry key value entries).Pairwise fun a b => a.1 < b.1 := by
  induction entries with
  | nil => simp [insertEntry]
  | cons head rest ih =>
    obtain ⟨hhead, hrest⟩ := List.pairwise_cons.1 h
    rw [insertEntry]
    split
    · next heq =>
      exact List.pairwise_cons.2 ⟨fun e he => heq ▸ hhead e he, hrest⟩
    · next hne =>
      split
      · next hlt =>
        refine List.pairwise_cons.2 ⟨fun e he => ?_, h⟩
        rcases List.mem_cons.1 he with rfl | he
        · exact hlt
        · exact Trans.trans hlt (hhead e he)
      · next hnlt =>
        refine List.pairwise_cons.2 ⟨fun e he => ?_, ih hrest⟩
        rcases mem_insertEntry he with rfl | he
        · exact Classical.byContradiction fun hn =>
            hne (Std.Trichotomous.trichotomous _ _ hnlt hn)
        · exact hhead e he

/-- Binds a key, over what it was bound to before. -/
def insert (t : Table κ α) (key : κ) (value : α) : Table κ α where
  entries := insertEntry key value t.entries
  ascending := pairwise_insertEntry key value t.ascending

/-- The table of a list of bindings, in which a later binding of a key replaces an earlier one. -/
def ofList (bindings : List (κ × α)) : Table κ α :=
  bindings.foldl (fun t (key, value) => t.insert key value) empty

/-- The bound key finds the value just bound, and every other key finds what it found before. -/
@[simp]
theorem get?_insert (t : Table κ α) (key k : κ) (value : α) :
    (t.insert key value).get? k = if k = key then some value else t.get? k := by
  suffices h : ∀ entries : List (κ × α),
      ((insertEntry key value entries).find? (·.1 = k)).map (·.2) =
        if k = key then some value else (entries.find? (·.1 = k)).map (·.2) from h t.entries
  intro entries
  induction entries with
  | nil => by_cases h : k = key <;> simp [insertEntry, h, Ne.symm]
  | cons head rest ih =>
    rw [insertEntry]
    by_cases h : key = head.1
    · by_cases hk : k = key
      · simp [h, hk]
      · have : head.1 ≠ k := fun e => hk (e ▸ h.symm)
        simp [h, this, Ne.symm this]
    · by_cases hlt : key < head.1
      · by_cases hk : k = key
        · simp [h, hlt, hk]
        · simp [h, hlt, hk, Ne.symm hk]
      · by_cases hk : head.1 = k
        · have : k ≠ key := fun e => h (e ▸ hk.symm)
          rw [if_neg h, if_neg hlt]
          simp [hk, this]
        · simp [h, hlt, hk, ih]

end Insert

end Table

end EventRules
