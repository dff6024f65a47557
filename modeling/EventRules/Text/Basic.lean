/-
# Text

Text is the sequence of its code points, so that a length, an offset and a column all count the
same thing. The operations here put lines together and take delimited text apart.
-/

namespace EventRules

/-- Text as the sequence of its code points. -/
abbrev Text := List Char

instance : Coe String Text := ⟨String.toList⟩

/-- Of two different texts one is less than the other. -/
instance : Std.Trichotomous (fun a b : Text => a < b) := inferInstance

namespace Text

/-- The parts in order, with `separator` between neighbours. -/
def join (separator : Text) (parts : List Text) : Text :=
  separator.intercalate parts

/-- Lines as one text, a newline between neighbours. -/
def ofLines (lines : List Text) : Text :=
  join "\n" lines

/-- Every line moved one level, two spaces, to the right. -/
def indent (lines : List Text) : List Text :=
  lines.map ("  " ++ ·)

/-- A line and, one level below it, further lines. -/
def heading (line : Text) (body : List Text) : List Text :=
  line :: indent body

/-- The pieces of a text between the characters that satisfy `isMark`. There is always one piece
more than there are marks, and a piece may be empty. -/
def splitWhere (isMark : Char → Bool) : Text → List Text
  | [] => [[]]
  | c :: t =>
    if isMark c then [] :: splitWhere isMark t
    else
      match splitWhere isMark t with
      | [] => [[c]]
      | piece :: pieces => (c :: piece) :: pieces

/-- The text before the first `mark` and the text after it, if `mark` occurs. -/
def cut? (mark : Char) : Text → Option (Text × Text)
  | [] => none
  | c :: t => if c = mark then some ([], t) else (cut? mark t).map fun (a, b) => (c :: a, b)

/-- The text before the first occurrence of `mark`, if there is one. The empty mark occurs at the
start of every text. -/
def before? (mark : Text) : Text → Option Text
  | [] => if mark.isEmpty then some [] else none
  | c :: t =>
    if mark.isPrefixOf (c :: t) then some [] else (before? mark t).map (c :: ·)

/-- Splitting always gives at least one piece. -/
theorem splitWhere_ne_nil (isMark : Char → Bool) (t : Text) : splitWhere isMark t ≠ [] := by
  cases t with
  | nil => simp [splitWhere]
  | cons c t =>
    rw [splitWhere]
    split
    · simp
    · split <;> simp

end Text

end EventRules
