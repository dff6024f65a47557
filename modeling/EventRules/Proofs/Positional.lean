/-
# Positional notation

A numeral is a run of digits, at least one, and denotes a number: each digit counts a power of the
base, and the last one counts units. Reading the digits from left to right finds that number, and it
finds one in numerals only. Likewise a run of pairs of hexadecimal digits denotes a run of bytes.
-/

import EventRules.Grammar.Literal
import EventRules.Proofs.Numeral
import Mathlib.Data.List.Induction
import Mathlib.Data.Nat.Digits.Defs

namespace EventRules

namespace Text

/-- Digits of a class, at least one, which denote the number in the given base. -/
structure Numeral (base : Nat) (isMember : Char → Bool) (t : Text) (n : Nat) : Prop where
  ne_nil : t ≠ []
  forall_mem : ∀ c ∈ t, isMember c
  value : Nat.ofDigits base (t.map hexDigitValue).reverse = n

/-- The text is a number in decimal. -/
abbrev DecimalNumeral : Text → Nat → Prop :=
  Numeral 10 Char.isDigit

/-- The text is a number in hexadecimal. -/
abbrev HexNumeral : Text → Nat → Prop :=
  Numeral 16 isHexDigit

/-- The text is a run of bytes, with two hexadecimal digits for each of them. -/
inductive HexBytes : Text → List Nat → Prop
  | nil : HexBytes [] []
  | cons {a b : Char} {t : Text} {n : Nat} {bytes : List Nat} (hbyte : HexNumeral [a, b] n)
      (hrest : HexBytes t bytes) : HexBytes (a :: b :: t) (n :: bytes)

/-- Reading digits from left to right adds up the powers of the base. -/
theorem ofDigits_eq_reverse (base : Nat) (t : Text) :
    ofDigits base t = Nat.ofDigits base (t.map hexDigitValue).reverse := by
  induction t using List.reverseRecOn with
  | nil => rfl
  | append_singleton t c ih =>
    rw [ofDigits_append, ih, List.map_append, List.map_singleton, List.reverse_concat,
      Nat.ofDigits_cons, Nat.mul_comm, Nat.add_comm]

theorem numeral_iff {base : Nat} {isMember : Char → Bool} {t : Text} {n : Nat} :
    (if t ≠ [] ∧ t.all isMember then some (ofDigits base t) else none) = some n ↔
      t.Numeral base isMember n := by
  constructor
  · intro h
    split at h
    · next hdigits =>
      cases h
      exact ⟨hdigits.1, List.all_eq_true.1 hdigits.2, (ofDigits_eq_reverse base t).symm⟩
    · cases h
  · rintro ⟨hne, hmem, rfl⟩
    rw [if_pos ⟨hne, List.all_eq_true.2 hmem⟩, ofDigits_eq_reverse]

/-- A text is read as a decimal number exactly if it is a decimal numeral. -/
theorem decimal?_eq_some_iff {t : Text} {n : Nat} : decimal? t = some n ↔ t.DecimalNumeral n :=
  numeral_iff

/-- A text is read as a hexadecimal number exactly if it is a hexadecimal numeral. -/
theorem hex?_eq_some_iff {t : Text} {n : Nat} : hex? t = some n ↔ t.HexNumeral n :=
  numeral_iff

/-- Every byte takes two digits. -/
theorem HexBytes.length_eq {t : Text} {bytes : List Nat} (h : t.HexBytes bytes) :
    t.length = 2 * bytes.length := by
  induction h with
  | nil => rfl
  | cons _ _ ih =>
    rw [List.length_cons, List.length_cons, List.length_cons, ih]
    omega

theorem HexBytes.isHexDigit {t : Text} {bytes : List Nat} (h : t.HexBytes bytes) :
    ∀ c ∈ t, Text.isHexDigit c := by
  induction h with
  | nil => exact List.forall_mem_nil _
  | cons hbyte _ ih =>
    have hpair := hbyte.forall_mem
    rw [List.forall_mem_cons, List.forall_mem_singleton] at hpair
    exact List.forall_mem_cons.2 ⟨hpair.1, List.forall_mem_cons.2 ⟨hpair.2, ih⟩⟩

/-- Hexadecimal digits, two for each byte, denote as many bytes. -/
theorem exists_hexBytes {n : Nat} {t : Text} (hmem : ∀ c ∈ t, isHexDigit c)
    (hlength : t.length = 2 * n) : ∃ bytes, t.HexBytes bytes ∧ bytes.length = n := by
  induction n generalizing t with
  | zero =>
    obtain rfl := List.length_eq_zero_iff.1 hlength
    exact ⟨[], .nil, rfl⟩
  | succ n ih =>
    match t, hmem, hlength with
    | a :: b :: t, hmem, hlength =>
      have hpair : HexNumeral [a, b] _ :=
        ⟨List.cons_ne_nil _ _, fun c hc => hmem c (List.mem_append_left t hc), rfl⟩
      have hlast : t.length = 2 * n := by
        rw [List.length_cons, List.length_cons] at hlength
        omega
      obtain ⟨bytes, hbytes, hcount⟩ :=
        ih (fun c hc => hmem c (List.mem_cons_of_mem _ (List.mem_cons_of_mem _ hc))) hlast
      exact ⟨_ :: bytes, .cons hpair hbytes, by rw [List.length_cons, hcount]⟩

end Text

/-- Bytes are read where they are written. -/
theorem LiteralForm.bytes?_eq_some_iff {t : Text} {bytes : List Nat} :
    bytes? t = some bytes ↔ t.HexBytes bytes := by
  constructor
  · intro h
    fun_induction bytes? t generalizing bytes with
    | case1 =>
      cases h
      exact .nil
    | case2 => cases h
    | case3 a b digits ih =>
      obtain ⟨byte, hbyte, h⟩ := Option.bind_eq_some_iff.1 h
      obtain ⟨rest, hrest, heq⟩ := Option.bind_eq_some_iff.1 h
      cases heq
      exact .cons (Text.hex?_eq_some_iff.1 hbyte) (ih hrest)
  · intro h
    induction h with
    | nil => rfl
    | cons hbyte _ ih =>
      rw [bytes?, Text.hex?_eq_some_iff.2 hbyte, ih]
      rfl

end EventRules
