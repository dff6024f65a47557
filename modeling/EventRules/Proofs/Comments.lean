/-
# Comments and lines

Blanking out comments goes line by line, and it leaves a text without slashes as it is.
-/

import EventRules.Proofs.Text
import EventRules.Source.Comment

namespace EventRules

/-- The text holds no slash. -/
abbrev Text.Plain (t : Text) : Prop :=
  t.Lacks '/'

namespace Comment

/-- Without slashes there are no comments. -/
theorem blankFrom_of_plain {place : Place} {t : Text} (hplace : place ≠ .comment) (ht : t.Plain) :
    blankFrom place t = t := by
  -- along the scan: outside comments a place leads to no comment unless a slash is read
  fun_induction blankFrom place t with
  | case1 => rfl
  | case2 place t ih =>
    rw [ih (by decide) fun h => ht (List.mem_cons_of_mem _ h)]
  | case3 => exact absurd rfl hplace
  | case4 c t hc ih =>
    rw [ih (by split <;> decide) fun h => ht (List.mem_cons_of_mem _ h)]
  | case5 => exact absurd (List.mem_cons_self ..) ht
  | case6 c t hc hslash ih =>
    rw [ih (by split <;> decide) fun h => ht (List.mem_cons_of_mem _ h)]

theorem blank_of_plain {t : Text} (ht : t.Plain) : blank t = t :=
  blankFrom_of_plain (by decide) ht

/-- A line feed ends every comment and every quotation. -/
theorem blankFrom_append (place : Place) (t u : Text) :
    blankFrom place (t ++ '\n' :: u) = blankFrom place t ++ '\n' :: blankFrom .code u := by
  fun_induction blankFrom place t with
  | case1 place => cases place <;> rfl
  | case2 place t ih => rw [List.cons_append, blankFrom, ih, List.cons_append]
  | case3 c t hc ih =>
    rw [List.cons_append, blankFrom, ih, List.cons_append]
    exact hc
  | case4 c t hc ih =>
    rw [List.cons_append, blankFrom, ih, List.cons_append]
    exact hc
  | case5 t ih => rw [List.cons_append, List.cons_append, blankFrom, ih]; rfl
  | case6 c t hc hslash ih =>
    rw [List.cons_append, blankFrom, ih, List.cons_append]
    · exact hc
    · intro t' hfirst hsecond
      cases t with
      | nil => cases hsecond
      | cons d t =>
        cases hsecond
        exact hslash t hfirst rfl

/-- Comments are blanked out on each line by itself. -/
theorem blank_append (t u : Text) : blank (t ++ '\n' :: u) = blank t ++ '\n' :: blank u :=
  blankFrom_append .code t u

end Comment

end EventRules
