/-
# Spelling

The names of extractors, filters and producers are spelled as names of the language, and each name
is found again by its spelling. So is a shape among the shapes of its family.
-/

import EventRules.Proofs.Reading

namespace EventRules

theorem ItemName.spelling_of_ofSpelling? {ν : Type} [ItemName ν] {t : Text} {name : ν}
    (h : ItemName.ofSpelling? ν t = some name) : ItemName.spelling name = t :=
  of_decide_eq_true (List.find?_some (p := fun n : ν => ItemName.spelling n = t) h)

/-- All names of items of a sort are listed, spelled as names, and each spelled in its own way. -/
class Spelled (ν : Type) [ItemName ν] : Prop where
  mem_all (n : ν) : n ∈ ItemName.all
  spelling_of_mem : ∀ n ∈ (ItemName.all : List ν),
    (ItemName.spelling n).IsName ∧ ItemName.ofSpelling? ν (ItemName.spelling n) = some n

instance : Spelled ExtractorName where
  mem_all n := by cases n <;> decide
  spelling_of_mem := by decide +kernel

instance : Spelled FilterName where
  mem_all n := by cases n <;> decide
  spelling_of_mem := by decide +kernel

instance : Spelled ProducerName where
  mem_all n := by cases n <;> decide
  spelling_of_mem := by decide +kernel

namespace Spelled

variable {ν : Type} [ItemName ν] [Spelled ν]

theorem isName (n : ν) : (ItemName.spelling n).IsName :=
  (spelling_of_mem n (mem_all n)).1

/-- Every name of an item is found under its spelling. -/
theorem ofSpelling?_spelling (n : ν) : ItemName.ofSpelling? ν (ItemName.spelling n) = some n :=
  (spelling_of_mem n (mem_all n)).2

/-- The name that is found under a text is the one with this spelling. -/
theorem ofSpelling?_eq_some_iff {t : Text} {n : ν} :
    ItemName.ofSpelling? ν t = some n ↔ ItemName.spelling n = t :=
  ⟨ItemName.spelling_of_ofSpelling?, fun h => h ▸ ofSpelling?_spelling n⟩

end Spelled

/-! ### Peripherals -/

theorem Family.mem_all (f : Family) : f ∈ all := by
  cases f <;> decide

theorem Family.isName_keyword (f : Family) : f.keyword.IsName := by
  cases f <;> decide

theorem ShapeName.isName_spelling (n : ShapeName) : (ItemName.spelling n).IsName := by
  cases n <;> decide

/-- Every shape is one of its family. -/
theorem ShapeName.mem_shapes (n : ShapeName) : n ∈ n.family.shapes := by
  cases n <;> decide

theorem not_isSpace_of_isNameStart (c : Char) (h : isNameStart c) : isSpace c = false := by
  by_contra hspace
  simp only [Bool.not_eq_false, isSpace, Bool.or_eq_true, decide_eq_true_iff] at hspace
  rcases hspace with ((rfl | rfl) | rfl) | rfl <;> exact absurd h (by decide)

end EventRules
