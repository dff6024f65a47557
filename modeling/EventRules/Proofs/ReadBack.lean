/-
# Printed data read back

A literal is printed without leading zeros, and the argument it converts to with all the digits of
its width. Both are spellings of literals. So a literal is read back as itself, and an argument as a
literal that converts to the argument again, in every place where no name goes on behind it.
-/

import EventRules.Proofs.Written

namespace EventRules

/-- An integer printed with all the digits of its width spells the integer. -/
theorem Width.spelling_padded {w : Width} {n : Nat} (hn : n < w.size) :
    (Literal.int w n).Spelling (w.padded n) := by
  have htext : w.padded n = '0' :: 'x' :: Text.hexPadded (w.bits / 4) n ++ '~' :: w.name := by
    rw [padded, List.append_assoc, List.append_assoc]
    rfl
  rw [htext]
  exact .int (Text.hex?_hexPadded _ n) w.ofName?_name (lt_size_iff.1 hn)

namespace ParameterType

/-- The types whose arguments are printed in the notation of literals. -/
def printedAsLiteral : List ParameterType :=
  [value, messageValue, bcmValue, relayValue]

/-- The text of an argument spells the literal that stands for it. -/
theorem spelling_argumentText {p : ParameterType} (hp : p ∈ printedAsLiteral) {a : p.Argument}
    (ha : p.Fits Width.size a) : (p.literal a).Spelling (p.argumentText a) := by
  rw [printedAsLiteral] at hp
  simp only [List.mem_cons, List.not_mem_nil, or_false] at hp
  rcases hp with rfl | rfl | rfl | rfl
  · cases a with
    | int width n => exact Width.spelling_padded ha
    | bool b => exact .bool b
    | colour c => exact Literal.spelling_text (l := .colour c) ha
  · cases a with
    | int width n => exact Width.spelling_padded ha
    | bool b => exact .bool b
  · cases a with
    | single brightness => exact Width.spelling_padded ha
    | colour c => exact Literal.spelling_text (l := .colour c) ha
  · cases a with
    | single on => exact .bool on
    | pair state => exact Literal.spelling_text (fits_literal (p := relayValue) ha)

end ParameterType

namespace Parser

/-- The text of an argument is read as the literal that stands for it. -/
theorem literal_reads_argumentText {p : ParameterType} (hp : p ∈ ParameterType.printedAsLiteral)
    {a : p.Argument} (ha : p.Fits Width.size a) {v : Text} (hv : v.Stops isNameChar) :
    literal.Reads (p.argumentText a) v (· = p.literal a) :=
  literal_reads_spelling (ParameterType.spelling_argumentText hp ha) ((p.literal a).stops_goesOn hv)

/-- Printed literals and arguments read back. Before a text that does not go on with a name, the
text of a literal is read as the literal, up to its end; and the text of an argument to which the
literal converts is read as a literal that converts to the same argument. -/
theorem literal_reads_back {l : Literal} (hl : l.Fits Width.size) {v : Text}
    (hv : v.Stops isNameChar) :
    literal.Reads l.text v (· = l) ∧
      ∀ p ∈ ParameterType.printedAsLiteral, ∀ (location : Option Cursor) (a : p.Argument),
        p.cast l location = .ok a →
          literal.Reads (p.argumentText a) v fun l' => p.cast l' location = .ok a := by
  refine ⟨literal_reads hl hv, fun p hp location a hcast => ?_⟩
  have ha : p.Fits Width.size a := p.fits_of_convert hl (ParameterType.cast_eq_ok_iff.1 hcast)
  refine (literal_reads_argumentText hp ha hv).mono ?_
  rintro _ rfl
  exact ParameterType.cast_eq_ok_iff.2 (ParameterType.convert_literal ha)

/-- The literal `0x5~u8` reads back, and so does the brightness it converts to, with both digits of
a byte. -/
theorem literal_reads_back_brightness :
    literal.Reads "0x5~u8" ";" (· = .int .u8 5) ∧
      literal.Reads "0x05~u8" ";" fun l =>
        ParameterType.bcmValue.cast l none = .ok (.single 5) := by
  have hl : (Literal.int .u8 5).Fits Width.size := by decide
  have hv : Text.Stops isNameChar ";" := Text.stops_cons.2 (by decide)
  obtain ⟨hliteral, hargument⟩ := literal_reads_back hl hv
  exact ⟨hliteral, hargument .bcmValue (by decide) none (.single 5) rfl⟩

end Parser

end EventRules
