/-
# Blank characters

The white space of Unicode, which separates the fields of a schedule and is trimmed from excerpts.
The language itself separates its words by four of these characters only.
-/

import EventRules.Text.Basic

namespace EventRules

namespace Text

/-- The ranges of white-space code points, both ends included. -/
def blankRanges : List (Nat × Nat) :=
  [(0x9, 0xd), (0x1c, 0x20), (0x85, 0x85), (0xa0, 0xa0), (0x1680, 0x1680), (0x2000, 0x200a),
    (0x2028, 0x2029), (0x202f, 0x202f), (0x205f, 0x205f), (0x3000, 0x3000)]

/-- White space in the sense of Unicode. -/
def isBlank (c : Char) : Bool :=
  blankRanges.any fun (lo, hi) => lo ≤ c.toNat && c.toNat ≤ hi

/-- A text without the white space it starts with. -/
def trimStart (t : Text) : Text :=
  t.dropWhile isBlank

/-- A text without the white space it ends with. -/
def trimEnd (t : Text) : Text :=
  (t.reverse.dropWhile isBlank).reverse

/-- The maximal runs of characters that are not white space. -/
def words (t : Text) : List Text :=
  (t.splitWhere isBlank).filter (!·.isEmpty)

end Text

end EventRules
