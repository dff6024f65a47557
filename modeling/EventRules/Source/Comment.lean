/-
# Comments

Two slashes start a comment, which runs to the end of its line. Comments are blanked out with
spaces before a program is read, so that everything else keeps its line and column. Slashes inside
double quotes start no comment; for this purpose a quotation does not run past the end of a line.
-/

import EventRules.Text.Basic

namespace EventRules

namespace Comment

/-- Where a character stands on its line. -/
inductive Place
  | code
  | quotation
  | comment
  deriving DecidableEq, Repr

/-- Blanks out the comments of a text whose first character stands at the given place. -/
def blankFrom : Place → Text → Text
  | _, [] => []
  | _, '\n' :: t => '\n' :: blankFrom .code t
  | .comment, _ :: t => ' ' :: blankFrom .comment t
  | .quotation, c :: t => c :: blankFrom (if c = '"' then .code else .quotation) t
  | .code, '/' :: '/' :: t => ' ' :: ' ' :: blankFrom .comment t
  | .code, c :: t => c :: blankFrom (if c = '"' then .quotation else .code) t

/-- A text with its comments blanked out. -/
def blank (t : Text) : Text :=
  blankFrom .code t

@[simp]
theorem length_blankFrom (place : Place) (t : Text) : (blankFrom place t).length = t.length := by
  fun_induction blankFrom place t <;> simp_all

/-- Blanking out comments moves nothing. -/
@[simp]
theorem length_blank (t : Text) : (blank t).length = t.length :=
  length_blankFrom .code t

end Comment

end EventRules
