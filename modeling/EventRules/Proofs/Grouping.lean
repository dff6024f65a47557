/-
# Choices within choices

Where a choice stands among the alternatives of another one, its own alternatives might as well
stand there in its place. What is read is the same, and so is a fatal failure. If all alternatives
fail recoverably, the inner choice adds its list of failures to the outer one, in which each failure
has the place that it would have had without the grouping.

The failures that a choice has gathered show only through the alternatives they add to its
diagnostic. This is why it makes no difference whether they are gathered at once or in two steps.
-/

import EventRules.Proofs.Commitment

namespace EventRules

/-- Failures that were combined before add the same alternatives as they would add themselves. -/
theorem Diagnostic.flatMap_alternatives_combine (failures nested : List Diagnostic) :
    (failures ++ [combine nested]).flatMap alternatives =
      (failures ++ nested).flatMap alternatives := by
  rw [List.flatMap_append, List.flatMap_append, List.flatMap_singleton]
  rfl

namespace Parser

variable {α : Type}

/-- A choice goes on behind an alternative that declines, and ends with any other. -/
theorem run_choice_cons (failures : List Diagnostic) (p : Parser α) (ps : List (Parser α))
    (c : Cursor) :
    (choice failures (p :: ps)).run c =
      match p.run c with
      | ⟨notes, .ok r⟩ => ⟨notes, .ok r⟩
      | ⟨notes, .error (.fault f)⟩ => ⟨notes, .error f⟩
      | ⟨notes, .error (.diagnostic d)⟩ =>
        if d.isFatal then ⟨notes, .error d⟩
        else ((choice (failures ++ [d]) ps).run c).after notes := rfl

/-- Gathered failures that add the same alternatives are as good as each other. -/
theorem choice_congr {failures failures' : List Diagnostic}
    (h : failures.flatMap Diagnostic.alternatives = failures'.flatMap Diagnostic.alternatives)
    (ps : List (Parser α)) : choice failures ps = choice failures' ps := by
  induction ps generalizing failures failures' with
  | nil => rw [choice, choice, Diagnostic.combine, Diagnostic.combine, h]
  | cons p ps ih =>
    have hmore (d : Diagnostic) : choice (failures ++ [d]) ps = choice (failures' ++ [d]) ps :=
      ih (by rw [List.flatMap_append, List.flatMap_append, h])
    funext c
    change (choice failures (p :: ps)).run c = (choice failures' (p :: ps)).run c
    simp only [run_choice_cons, hmore]

/-- A choice that is the first alternative of another one leaves its alternatives, and the failures
it has gathered, to the other. -/
theorem choice_choice_cons (failures nested : List Diagnostic) (qs ps : List (Parser α)) :
    choice failures (choice nested qs :: ps) = choice (failures ++ nested) (qs ++ ps) := by
  funext c
  change (choice failures (choice nested qs :: ps)).run c =
    (choice (failures ++ nested) (qs ++ ps)).run c
  induction qs generalizing nested with
  | nil =>
    rw [run_choice_cons]
    change (choice (failures ++ [.combine nested]) ps).run c = _
    rw [choice_congr (Diagnostic.flatMap_alternatives_combine failures nested)]
    rfl
  | cons q qs ih =>
    rw [List.cons_append, run_choice_cons, run_choice_cons, run_choice_cons]
    rcases hq : q.run c with ⟨notes, (d | f) | r⟩
    · dsimp only
      by_cases hfatal : d.isFatal
      · simp [hfatal]
      · -- the inner choice goes on, and its notes come after those of the first alternative
        have hrest := ih (nested ++ [d])
        rw [run_choice_cons] at hrest
        simp only [hfatal]
        rw [List.append_assoc, ← hrest]
        rcases (choice (nested ++ [d]) qs).run c with ⟨notes', (e | f) | r⟩
        · by_cases hfatal' : e.isFatal <;> simp [Attempt.after, hfatal']
        · rfl
        · rfl
    · rfl
    · rfl

/-- A choice among the alternatives of another one leaves its alternatives to the other. -/
theorem choice_append_alt (failures : List Diagnostic) (ps qs rs : List (Parser α)) :
    choice failures (ps ++ alt qs :: rs) = choice failures (ps ++ qs ++ rs) := by
  induction ps generalizing failures with
  | nil =>
    have hfirst := choice_choice_cons failures [] qs rs
    rwa [List.append_nil] at hfirst
  | cons p ps ih =>
    funext c
    change (choice failures (p :: (ps ++ alt qs :: rs))).run c =
      (choice failures (p :: (ps ++ qs ++ rs))).run c
    simp only [run_choice_cons, ih]

/-- A choice has the outcome of its first alternative that does not decline. If there is none, its
diagnostic lists the alternatives that the failures add, in the order of the parsers. -/
theorem outcome_choice_cases (failures : List Diagnostic) (ps : List (Parser α)) (c : Cursor) :
    (∃ before p after, ps = before ++ p :: after ∧ (∀ q ∈ before, q.Declines c) ∧
      ¬ p.Declines c ∧ (choice failures ps).outcome c = p.outcome c) ∨
    ∃ ds : List Diagnostic,
      List.Forall₂ (fun p d => p.outcome c = .error d ∧ d.isFatal = false) ps ds ∧
        (choice failures ps).outcome c = .error (Diagnostic.combine (failures ++ ds)) := by
  induction ps generalizing failures with
  | nil => exact .inr ⟨[], .nil, by rw [List.append_nil]; rfl⟩
  | cons p ps ih =>
    by_cases hp : p.Declines c
    · obtain ⟨d, hd, hfatal⟩ := hp
      have hnext : (choice failures (p :: ps)).outcome c =
          (choice (failures ++ [d]) ps).outcome c := by
        rw [outcome_choice_cons, hd]
        simp [hfatal]
      rw [hnext]
      rcases ih (failures ++ [d]) with ⟨before, q, after, rfl, hbefore, hq⟩ | ⟨ds, hds, hout⟩
      · exact .inl ⟨p :: before, q, after, rfl,
          List.forall_mem_cons.2 ⟨⟨d, hd, hfatal⟩, hbefore⟩, hq⟩
      · refine .inr ⟨d :: ds, .cons ⟨hd, hfatal⟩ hds, ?_⟩
        rw [hout, List.append_assoc]
        rfl
    · have hfirst : (choice failures ([] ++ p :: ps)).outcome c = p.outcome c :=
        outcome_choice_of_declines (List.forall_mem_nil _) hp
      exact .inl ⟨[], p, ps, rfl, List.forall_mem_nil _, hp, hfirst⟩

/-- Grouping alternatives makes no difference: a choice among the alternatives of another one may be
replaced by its own alternatives. Grouped or not, the outcome is that of the first parser that
succeeds or fails fatally, or else a recoverable diagnostic with the alternatives of all failures in
their order. -/
theorem alt_grouped (ps qs rs : List (Parser α)) (c : Cursor) :
    (alt (ps ++ alt qs :: rs)).run c = (alt (ps ++ qs ++ rs)).run c ∧
      ((∃ before p after, ps ++ qs ++ rs = before ++ p :: after ∧ (∀ q ∈ before, q.Declines c) ∧
          ¬ p.Declines c ∧ (alt (ps ++ alt qs :: rs)).outcome c = p.outcome c) ∨
        ∃ ds : List Diagnostic,
          List.Forall₂ (fun p d => p.outcome c = .error d ∧ d.isFatal = false) (ps ++ qs ++ rs) ds ∧
          (alt (ps ++ alt qs :: rs)).outcome c =
            .error (Diagnostic.oneOf (ds.flatMap Diagnostic.alternatives) .recoverable)) := by
  have hsame : alt (ps ++ alt qs :: rs) = alt (ps ++ qs ++ rs) := choice_append_alt [] ps qs rs
  rw [hsame]
  exact ⟨rfl, outcome_choice_cases [] (ps ++ qs ++ rs) c⟩

end Parser

end EventRules
