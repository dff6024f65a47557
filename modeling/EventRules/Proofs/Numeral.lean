/-
# Numerals read back

The digits of a number denote that number, in decimal and in hexadecimal, with or without padding.
So a number is determined by its numeral.
-/

import EventRules.Text.Numeral
import Mathlib.Tactic.Common

namespace EventRules

namespace Text

/-- The last digit counts once, and the digits before it count as many times as the base says. -/
theorem ofDigits_append (base : Nat) (t : Text) (c : Char) :
    ofDigits base (t ++ [c]) = ofDigits base t * base + hexDigitValue c := by
  rw [ofDigits, ofDigits, List.foldl_append]
  rfl

theorem hexDigitValue_digitChar : ∀ d < 16, hexDigitValue d.digitChar = d := by
  decide

theorem isHexDigit_digitChar : ∀ d < 16, isHexDigit d.digitChar := by
  decide

/-- The digits of a number denote the number. -/
theorem ofDigits_toDigits {base : Nat} (hlow : 1 < base) (hhigh : base ≤ 16) (n : Nat) :
    ofDigits base (Nat.toDigits base n) = n := by
  induction n using Nat.strongRecOn with
  | ind n ih =>
    rw [Nat.toDigits_eq_if hlow]
    split
    · next h =>
      have hvalue := hexDigitValue_digitChar n (by omega)
      simp [ofDigits, hvalue]
    · next h =>
      have hdigit := Nat.mod_lt n (by omega : 0 < base)
      have hsmaller : n / base < n := Nat.div_lt_self (by omega) hlow
      rw [ofDigits_append, ih _ hsmaller, hexDigitValue_digitChar _ (by omega), Nat.mul_comm]
      exact Nat.div_add_mod n base

/-- Numerals have hexadecimal digits, in every base up to sixteen. -/
theorem isHexDigit_of_mem_toDigits {base n : Nat} {c : Char} (hlow : 1 < base)
    (hhigh : base ≤ 16) (h : c ∈ Nat.toDigits base n) : isHexDigit c := by
  induction n using Nat.strongRecOn with
  | ind n ih =>
    rw [Nat.toDigits_eq_if hlow] at h
    split at h
    · rw [List.mem_singleton.1 h]
      exact isHexDigit_digitChar n (by omega)
    · rcases List.mem_append.1 h with h | h
      · exact ih _ (Nat.div_lt_self (by omega) hlow) h
      · rw [List.mem_singleton.1 h]
        have hdigit := Nat.mod_lt n (by omega : 0 < base)
        exact isHexDigit_digitChar _ (by omega)

/-! ### Decimal -/

theorem decimal_ne_nil (n : Nat) : decimal n ≠ [] :=
  Nat.toDigits_ne_nil

theorem isDigit_of_mem_decimal {n : Nat} {c : Char} (h : c ∈ decimal n) : c.isDigit :=
  Nat.isDigit_of_mem_toDigits (by decide) (by decide) h

@[simp]
theorem decimal?_decimal (n : Nat) : decimal? (decimal n) = some n := by
  have hall : (decimal n).all Char.isDigit := List.all_eq_true.2 fun _ => isDigit_of_mem_decimal
  rw [decimal?, if_pos ⟨decimal_ne_nil n, hall⟩, decimal, ofDigits_toDigits (by decide) (by decide)]

/-- Numbers with the same decimal digits are the same. -/
theorem decimal_injective {m n : Nat} (h : decimal m = decimal n) : m = n := by
  have hread := congrArg decimal? h
  simpa using hread

/-! ### Hexadecimal -/

theorem hex_ne_nil (n : Nat) : hex n ≠ [] :=
  Nat.toDigits_ne_nil

theorem isHexDigit_of_mem_hex {n : Nat} {c : Char} (h : c ∈ hex n) : isHexDigit c :=
  isHexDigit_of_mem_toDigits (by decide) (by decide) h

/-- Zeros in front of a numeral do not count. -/
theorem ofDigits_replicate_append (base k : Nat) (t : Text) :
    ofDigits base (List.replicate k '0' ++ t) = ofDigits base t := by
  induction k with
  | zero => rfl
  | succ k ih =>
    rw [← ih, List.replicate_succ, List.cons_append, ofDigits, List.foldl_cons]
    congr 1
    rw [Nat.zero_mul]
    rfl

/-- Padding does not change the value. -/
theorem ofDigits_hexPadded (width n : Nat) : ofDigits 16 (hexPadded width n) = n := by
  rw [hexPadded, List.leftpad, ofDigits_replicate_append, hex,
    ofDigits_toDigits (by decide) (by decide)]

/-- Numbers with the same padded digits are the same. -/
theorem hexPadded_injective {width m n : Nat} (h : hexPadded width m = hexPadded width n) :
    m = n := by
  have hread := congrArg (ofDigits 16) h
  simpa only [ofDigits_hexPadded] using hread

theorem isHexDigit_of_mem_hexPadded {width n : Nat} {c : Char} (h : c ∈ hexPadded width n) :
    isHexDigit c := by
  rcases List.mem_append.1 h with h | h
  · rw [List.eq_of_mem_replicate h]
    decide
  · exact isHexDigit_of_mem_hex h

/-- A number that fits the width is padded to exactly the width. -/
theorem length_hexPadded (width : Nat) {n : Nat} (hwidth : 0 < width) (hn : n < Nat.pow 16 width) :
    (hexPadded width n).length = width := by
  have hlength := (Nat.length_toDigits_le_iff (by decide : 1 < 16) hwidth).2 hn
  rw [hexPadded, List.length_leftpad, hex]
  exact Nat.max_eq_left hlength

@[simp]
theorem hex?_hex (n : Nat) : hex? (hex n) = some n := by
  have hall : (hex n).all isHexDigit := List.all_eq_true.2 fun _ => isHexDigit_of_mem_hex
  rw [hex?, if_pos ⟨hex_ne_nil n, hall⟩, hex, ofDigits_toDigits (by decide) (by decide)]

@[simp]
theorem hex?_hexPadded (width n : Nat) : hex? (hexPadded width n) = some n := by
  have hall : (hexPadded width n).all isHexDigit :=
    List.all_eq_true.2 fun _ => isHexDigit_of_mem_hexPadded
  have hne : hexPadded width n ≠ [] := by
    intro h
    have hempty : List.replicate _ '0' ++ hex n = [] := h
    exact hex_ne_nil n (List.append_eq_nil_iff.1 hempty).2
  rw [hex?, if_pos ⟨hne, hall⟩, ofDigits_hexPadded]

/-! ### Digits among the characters -/

theorem isDigit_iff {c : Char} : c.isDigit ↔ 48 ≤ c.toNat ∧ c.toNat ≤ 57 := by
  rw [Char.isDigit, Bool.and_eq_true, decide_eq_true_iff, decide_eq_true_iff]
  rfl

theorem isHexDigit_iff {c : Char} :
    isHexDigit c ↔ (48 ≤ c.toNat ∧ c.toNat ≤ 57) ∨ (97 ≤ c.toNat ∧ c.toNat ≤ 102) ∨
      (65 ≤ c.toNat ∧ c.toNat ≤ 70) := by
  rw [isHexDigit, Bool.or_eq_true, Bool.or_eq_true, isDigit_iff, Bool.and_eq_true,
    Bool.and_eq_true, decide_eq_true_iff, decide_eq_true_iff, decide_eq_true_iff,
    decide_eq_true_iff, or_assoc]
  rfl

theorem isAlpha_iff {c : Char} :
    c.isAlpha ↔ (97 ≤ c.toNat ∧ c.toNat ≤ 122) ∨ (65 ≤ c.toNat ∧ c.toNat ≤ 90) := by
  have hupper : c.isUpper ↔ 65 ≤ c.toNat ∧ c.toNat ≤ 90 := decide_eq_true_iff
  have hlower : c.isLower ↔ 97 ≤ c.toNat ∧ c.toNat ≤ 122 :=
    Bool.and_eq_true_iff.trans (and_congr decide_eq_true_iff decide_eq_true_iff)
  have hletter : c.isAlpha ↔ c.isUpper ∨ c.isLower := Bool.or_eq_true_iff
  rw [hletter, hupper, hlower, or_comm]

theorem isAlphanum_iff {c : Char} :
    c.isAlphanum ↔ (48 ≤ c.toNat ∧ c.toNat ≤ 57) ∨ (97 ≤ c.toNat ∧ c.toNat ≤ 122) ∨
      (65 ≤ c.toNat ∧ c.toNat ≤ 90) := by
  have hsplit : c.isAlphanum ↔ c.isAlpha ∨ c.isDigit := Bool.or_eq_true_iff
  rw [hsplit, isAlpha_iff, isDigit_iff, or_comm]

theorem hexDigitValue_lt {c : Char} (h : isHexDigit c) : hexDigitValue c < 16 := by
  have hletter : 'a' ≤ c ↔ 97 ≤ c.toNat := Iff.rfl
  have hvalues : '0'.toNat = 48 ∧ 'a'.toNat = 97 ∧ 'A'.toNat = 65 := ⟨rfl, rfl, rfl⟩
  rw [isHexDigit_iff] at h
  rw [hexDigitValue]
  simp only [isDigit_iff, hletter]
  split
  · omega
  · split <;> omega

end Text

end EventRules
