/-
# Runs

A run reads one statement after the other. Every statement consumes text, so a run is the plain
iteration of its step, and what every step preserves holds at the end of a run.

A run reaches what it has led to after each of its statements, together with the position behind
that statement. It ends at the end of the source, or with the first step that fails there.
-/

import EventRules.Proofs.Declare
import EventRules.Proofs.Soundness
import Mathlib.Logic.Relation

namespace EventRules

namespace Progress

variable [NestingLimit] {p p' : Progress} {c c' : Cursor}

/-- A step reads a statement and adds it. -/
theorem outcome_step (p : Progress) (c : Cursor) :
    p.step.outcome c =
      (Parser.statement p.symbols.toScope).outcome c >>= fun r =>
        p.add r.1 >>= fun q => .ok (q.2, r.2) := by
  rw [step, Parser.outcome_bind]
  congr 1
  funext r
  rw [Parser.outcome_bind, Parser.outcome_ofExcept]
  cases p.add r.1 <;> rfl

/-- A step succeeds when a statement is read that is not refused. -/
theorem step_eq_ok_iff :
    p.step.outcome c = .ok (p', c') ↔ ∃ s, (Parser.statement p.symbols.toScope).outcome c =
      .ok (s, c') ∧ p.refusal? s = none ∧ p' = p.extend s := by
  rw [outcome_step, bind_eq_ok]
  constructor
  · rintro ⟨⟨s, d⟩, hs, h⟩
    obtain ⟨⟨n, q⟩, hadd, heq⟩ := bind_eq_ok.1 h
    cases heq
    obtain ⟨hnew, hq⟩ := add_eq_ok_iff.1 hadd
    exact ⟨s, hs, hnew, congrArg Prod.snd hq⟩
  · rintro ⟨s, hs, hnew, rfl⟩
    exact ⟨(s, c'), hs, bind_eq_ok.2 ⟨_, add_eq_ok_iff.2 ⟨hnew, rfl⟩, rfl⟩⟩

/-- A step fails when no statement can be read, or when the statement is refused. -/
theorem step_eq_error_iff {e : Failure} :
    p.step.outcome c = .error e ↔
      (Parser.statement p.symbols.toScope).outcome c = .error e ∨
      ∃ s c', (Parser.statement p.symbols.toScope).outcome c = .ok (s, c') ∧
        p.refusal? s = some e := by
  rw [outcome_step, bind_eq_error, Prod.exists]
  refine or_congr_right (exists_congr fun s => exists_congr fun c' => and_congr_right fun _ => ?_)
  rw [add_eq]
  cases p.refusal? s <;> simp

/-- Whether redeclaration is allowed does not change. -/
theorem redeclaration_of_step (h : p.step.outcome c = .ok (p', c')) :
    p'.symbols.redeclaration = p.symbols.redeclaration := by
  obtain ⟨s, -, -, rfl⟩ := step_eq_ok_iff.1 h
  cases s with
  | rule r => rfl
  | clause m => rfl
  | declaration d => cases d <;> rfl

/-- A step moves forward and consumes text. -/
theorem step_takes (p : Progress) : p.step.Takes fun _ => True := by
  have hsize : ∀ w : Width, w.size ≤ w.size := fun _ => Nat.le_refl _
  refine .bind (Parser.statement_takes hsize _) fun s _ =>
    .bind (V := fun _ => True) (.ofExcept fun _ _ => trivial) fun r _ => ?_
  exact .bind (.note _) fun _ _ => .pure trivial

/-- A step leaves less of the source remaining than there was before the space that it skips. -/
theorem remaining_lt_of_step (h : p.step.outcome c.skipSpace = .ok (p', c')) :
    c'.remaining < c.remaining := by
  exact Nat.lt_of_lt_of_le (p.step_takes.remaining_lt h) c.leads_skipSpace.remaining_le

/-- What a run does at a cursor: nothing at the end of the source, and else a step and the run
from there. -/
theorem outcome_run (p : Progress) (c : Cursor) :
    (p.run c).outcome =
      if c.skipSpace.atEnd then .ok p
      else p.step.outcome c.skipSpace >>= fun r => (r.1.run r.2).outcome := by
  rw [run]
  split
  · rfl
  · rw [Attempt.outcome_bind]
    change p.step.outcome c.skipSpace >>= _ = _
    cases h : p.step.outcome c.skipSpace with
    | error d => rfl
    | ok r =>
      -- the run checks for itself that the step has consumed text, and it always has
      rw [ok_bind, ok_bind]
      exact congrArg Attempt.outcome (dif_pos (remaining_lt_of_step h))

/-- A run depends on the position only up to the space that it skips first. -/
theorem outcome_run_congr {d : Cursor} (h : c.skipSpace = d.skipSpace) :
    (p.run c).outcome = (p.run d).outcome := by
  rw [outcome_run, outcome_run, h]

/-- What every step preserves holds at the end of a run. -/
theorem run_preserves {I : Progress → Cursor → Prop}
    (hstep : ∀ ⦃p c p' c'⦄, I p c → p.step.outcome c.skipSpace = .ok (p', c') → I p' c')
    (hI : I p c) (h : (p.run c).outcome = .ok p') : ∃ c', I p' c' := by
  induction hn : c.remaining using Nat.strongRecOn generalizing p c with
  | ind n ih =>
    rw [outcome_run] at h
    split at h
    · cases h
      exact ⟨c, hI⟩
    · obtain ⟨⟨q, d⟩, hfirst, hrest⟩ := bind_eq_ok.1 h
      exact ih _ (hn ▸ remaining_lt_of_step hfirst) (hstep hI hfirst) hrest rfl

/-! ### What a run reaches -/

/-- A statement is read after space and taken in. -/
def Next (s t : Progress × Cursor) : Prop :=
  s.2.skipSpace.atEnd = false ∧ s.1.step.outcome s.2.skipSpace = .ok t

/-- Some statements are read and taken in, one after the other. -/
abbrev Reaches : Progress × Cursor → Progress × Cursor → Prop :=
  Relation.ReflTransGen Next

variable {s t : Progress × Cursor}

/-- A run goes on from everything that it reaches. -/
theorem Reaches.outcome_run_eq (h : Reaches s t) :
    (s.1.run s.2).outcome = (t.1.run t.2).outcome := by
  induction h with
  | refl => rfl
  | tail _ hnext ih =>
    rw [ih, outcome_run, if_neg (by simp [hnext.1]), hnext.2, ok_bind]

theorem Reaches.leads (h : Reaches s t) : s.2.Leads t.2 := by
  induction h with
  | refl => exact .refl _
  | tail _ hnext ih =>
    exact ih.trans ((Cursor.leads_skipSpace _).trans ((step_takes _).yields hnext.2).1)

/-- Steps do not change whether redeclaration is allowed. -/
theorem Reaches.redeclaration_eq (h : Reaches s t) :
    t.1.symbols.redeclaration = s.1.symbols.redeclaration := by
  induction h with
  | refl => rfl
  | tail _ hnext ih => exact (redeclaration_of_step hnext.2).trans ih

/-- A run reaches the end of its source, or a statement at which its step fails. -/
theorem exists_reaches (p : Progress) (c : Cursor) : ∃ q d, Reaches (p, c) (q, d) ∧
    (d.skipSpace.atEnd = true ∧ (p.run c).outcome = .ok q ∨
      d.skipSpace.atEnd = false ∧ ∃ e, q.step.outcome d.skipSpace = .error e ∧
        (p.run c).outcome = .error e) := by
  induction hn : c.remaining using Nat.strongRecOn generalizing p c with
  | ind n ih =>
    cases hend : c.skipSpace.atEnd with
    | true => exact ⟨p, c, .refl, .inl ⟨hend, by rw [outcome_run, if_pos hend]⟩⟩
    | false =>
      rw [outcome_run, if_neg (by simp [hend])]
      cases hstep : p.step.outcome c.skipSpace with
      | error e => exact ⟨p, c, .refl, .inr ⟨hend, e, hstep, rfl⟩⟩
      | ok r =>
        obtain ⟨q, d, hreach, hq⟩ := ih _ (hn ▸ remaining_lt_of_step hstep) r.1 r.2 rfl
        exact ⟨q, d, .head ⟨hend, hstep⟩ hreach, hq⟩

end Progress

namespace Options

/-- The source with its comments blanked out, as it is read. -/
def bare (s : Source) : Source :=
  { s with text := Comment.blank s.text }

variable [NestingLimit]

/-- A compilation has the outcome of the run over the source without its comments. -/
theorem outcome_compile (o : Options) (s : Source) :
    (o.compile s).outcome = (o.start.run (bare s).start).outcome.map (·.program s.name) := by
  rw [compile]
  split <;>
  · next h =>
    rw [show o.start.run (bare s).start = _ from h]
    rfl

/-- The source as which a program text is read, under a name of its own or under that of the
options. -/
def source (o : Options) (name text : Text) : Source :=
  bare ⟨if name.isEmpty then o.name else name, text⟩

/-- A program is what the run from its start has ended with. -/
theorem outcome_compileText (o : Options) (name text : Text) :
    (o.compileText name text).outcome =
      (o.start.run (o.source name text).start).outcome.map
        (·.program (o.source name text).name) :=
  o.outcome_compile _

end Options

end EventRules
