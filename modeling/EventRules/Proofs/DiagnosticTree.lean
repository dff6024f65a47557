/-
# The tree of a diagnostic

The nodes of a diagnostic are its root, the nodes of its reason and those of its alternatives. A
diagnostic is orderly when every node below the root is recoverable, no choice lists another choice
or fewer than two alternatives, and every finding has a given property.

Being orderly passes through all the ways in which a reader builds a diagnostic from others: giving
a reason, listing alternatives, taking in the alternatives of another choice, and making the root
fatal.
-/

import EventRules.Diagnostic.Render
import EventRules.Proofs.Cursor
import Mathlib.Algebra.Order.BigOperators.Group.List

namespace EventRules

namespace Diagnostic

/-! ### Nodes -/

mutual

/-- The nodes below the root, each before the nodes below it. -/
def descendants : Diagnostic → List Diagnostic
  | finding _ => []
  | because _ reason => reason :: descendants reason
  | oneOf alternatives _ => nodesOfAll alternatives

/-- The nodes of several diagnostics, one after the other. -/
def nodesOfAll : List Diagnostic → List Diagnostic
  | [] => []
  | d :: ds => d :: (descendants d ++ nodesOfAll ds)

end

/-- The nodes, the root first. -/
def nodes (d : Diagnostic) : List Diagnostic :=
  d :: d.descendants

/-- The root is a choice that failed. -/
def isChoice : Diagnostic → Bool
  | oneOf _ _ => true
  | _ => false

/-- What is wrong at the root, unless that is a choice. -/
def finding? : Diagnostic → Option Finding
  | finding f | because f _ => some f
  | oneOf _ _ => none

/-- The findings of all nodes. -/
def findings (d : Diagnostic) : List Finding :=
  d.nodes.filterMap finding?

theorem mem_nodes_iff {d n : Diagnostic} : n ∈ d.nodes ↔ n = d ∨ n ∈ d.descendants :=
  List.mem_cons

theorem nodesOfAll_eq_flatMap (ds : List Diagnostic) : nodesOfAll ds = ds.flatMap nodes := by
  induction ds with
  | nil => rfl
  | cons d ds ih => rw [nodesOfAll, ih, List.flatMap_cons, nodes, List.cons_append]

theorem mem_descendants_oneOf_iff {n : Diagnostic} {ds : List Diagnostic} {s : Severity} :
    n ∈ (oneOf ds s).descendants ↔ ∃ d ∈ ds, n ∈ d.nodes := by
  rw [descendants, nodesOfAll_eq_flatMap, List.mem_flatMap]

/-- The tree of a failure that ends the reading of a text: the root is fatal and no other node is,
every choice lists two alternatives or more, none of which is a choice, and it is known where
everything is wrong. -/
structure WellShaped (d : Diagnostic) : Prop where
  fatal : d.isFatal = true
  recoverable : ∀ n ∈ d.descendants, n.isFatal = false
  choices : ∀ ds s, oneOf ds s ∈ d.nodes → 2 ≤ ds.length ∧ ∀ a ∈ ds, a.isChoice = false
  located : ∀ f ∈ d.findings, f.location.isSome = true

/-! ### Orderly diagnostics -/

/-- Every finding has the property, the nodes below the root are recoverable, and a choice lists two
alternatives or more, none of which is a choice. -/
inductive Orderly (P : Finding → Prop) : Diagnostic → Prop
  | finding {f : Finding} (hf : P f) : Orderly P (finding f)
  | because {f : Finding} {reason : Diagnostic} (hf : P f) (hrecoverable : reason.isFatal = false)
      (hreason : Orderly P reason) : Orderly P (because f reason)
  | oneOf {ds : List Diagnostic} {s : Severity} (hlength : 2 ≤ ds.length)
      (hplain : ∀ d ∈ ds, d.isFatal = false ∧ d.isChoice = false)
      (hds : ∀ d ∈ ds, Orderly P d) : Orderly P (oneOf ds s)

namespace Orderly

variable {P Q : Finding → Prop} {d n : Diagnostic}

theorem mono (hPQ : ∀ f, P f → Q f) (h : d.Orderly P) : d.Orderly Q := by
  induction h with
  | finding hf => exact .finding (hPQ _ hf)
  | because hf hrecoverable _ ih => exact .because (hPQ _ hf) hrecoverable ih
  | oneOf hlength hplain _ ih => exact .oneOf hlength hplain ih

/-- The nodes below the root of an orderly diagnostic are orderly and recoverable. -/
theorem of_mem_descendants (h : d.Orderly P) (hn : n ∈ d.descendants) :
    n.Orderly P ∧ n.isFatal = false := by
  -- the type of diagnostics is nested, so the induction is on how the tree is orderly
  induction h with
  | finding => exact nomatch hn
  | because _ hrecoverable hreason ih =>
    rcases List.mem_cons.1 hn with rfl | hn
    · exact ⟨hreason, hrecoverable⟩
    · exact ih hn
  | oneOf _ hplain hds ih =>
    obtain ⟨a, ha, hn⟩ := mem_descendants_oneOf_iff.1 hn
    rcases mem_nodes_iff.1 hn with rfl | hn
    · exact ⟨hds n ha, (hplain n ha).1⟩
    · exact ih a ha hn

/-- Every node of an orderly diagnostic is orderly. -/
theorem of_mem_nodes (h : d.Orderly P) (hn : n ∈ d.nodes) : n.Orderly P := by
  rcases mem_nodes_iff.1 hn with rfl | hn
  · exact h
  · exact (h.of_mem_descendants hn).1

/-- Every finding of an orderly diagnostic has the property. -/
theorem of_mem_findings {f : Finding} (h : d.Orderly P) (hf : f ∈ d.findings) : P f := by
  obtain ⟨n, hn, hfn⟩ := List.mem_filterMap.1 hf
  cases h.of_mem_nodes hn with
  | finding hf => exact Option.some.inj hfn ▸ hf
  | because hf => exact Option.some.inj hfn ▸ hf
  | oneOf => cases hfn

/-- An orderly diagnostic with a fatal root is well shaped, if its findings are located. -/
theorem wellShaped (h : d.Orderly P) (hP : ∀ f, P f → f.location.isSome = true)
    (hfatal : d.isFatal = true) : d.WellShaped where
  fatal := hfatal
  recoverable _ hn := (h.of_mem_descendants hn).2
  choices ds s hn := by
    cases h.of_mem_nodes hn with
    | oneOf hlength hplain => exact ⟨hlength, fun a ha => (hplain a ha).2⟩
  located f hf := hP f (h.of_mem_findings hf)

/-! ### Orderly diagnostics from others -/

/-- An orderly diagnostic stays so when its root becomes fatal. -/
protected theorem escalate (h : d.Orderly P) (hP : ∀ f, P f → P { f with severity := .fatal }) :
    d.escalate.Orderly P := by
  cases h with
  | finding hf => exact .finding (hP _ hf)
  | because hf hrecoverable hreason => exact .because (hP _ hf) hrecoverable hreason
  | oneOf hlength hplain hds => exact .oneOf hlength hplain hds

/-- What a recoverable diagnostic adds to a choice may stand in a choice. -/
theorem of_mem_alternatives {a : Diagnostic} (h : d.Orderly P) (hrecoverable : d.isFatal = false)
    (ha : a ∈ d.alternatives) : a.Orderly P ∧ a.isFatal = false ∧ a.isChoice = false := by
  cases h with
  | oneOf _ hplain hds => exact ⟨hds a ha, hplain a ha⟩
  | finding hf =>
    obtain rfl := List.mem_singleton.1 ha
    exact ⟨.finding hf, hrecoverable, rfl⟩
  | because hf hbelow hreason =>
    obtain rfl := List.mem_singleton.1 ha
    exact ⟨.because hf hbelow hreason, hrecoverable, rfl⟩

theorem length_alternatives_pos (h : d.Orderly P) : 1 ≤ d.alternatives.length := by
  cases h with
  | oneOf hlength => exact Nat.le_of_succ_le hlength
  | finding | because => exact Nat.le_refl 1

/-- The diagnostic of a choice between two alternatives or more is orderly when their recoverable
failures are. -/
protected theorem combine {failures : List Diagnostic} (hlength : 2 ≤ failures.length)
    (h : ∀ d ∈ failures, d.Orderly P ∧ d.isFatal = false) : (combine failures).Orderly P := by
  have hplain : ∀ a ∈ failures.flatMap alternatives,
      a.Orderly P ∧ a.isFatal = false ∧ a.isChoice = false := by
    intro a ha
    obtain ⟨d, hd, ha⟩ := List.mem_flatMap.1 ha
    exact (h d hd).1.of_mem_alternatives (h d hd).2 ha
  refine .oneOf ?_ (fun a ha => (hplain a ha).2) fun a ha => (hplain a ha).1
  have hle := List.length_le_sum_of_one_le (failures.map fun d => d.alternatives.length)
    (List.forall_mem_map.2 fun d hd => (h d hd).1.length_alternatives_pos)
  rw [List.length_map] at hle
  rw [List.length_flatMap]
  exact hlength.trans hle

end Orderly

end Diagnostic

/-! ### Findings about the text from a position on -/

/-- At the second cursor, which the first leads to, there are that many characters. -/
structure Cursor.Spans (b c : Cursor) (length : Nat) : Prop where
  leads : b.Leads c
  length_le : length ≤ c.rest.length

/-- The finding points at text from a position on, and if it gives a length, there is as much. -/
def Finding.PointsFrom (b : Cursor) (f : Finding) : Prop :=
  ∃ c, f.location = some c ∧ b.Spans c (f.length.getD 0)

/-- The finding lies in a source, between an offset and the end, and if it gives a length, the text
at fault is as long. -/
def Finding.LiesIn (source : Source) (start : Nat) (f : Finding) : Prop :=
  ∃ c, f.location = some c ∧ c.source = source ∧
    start ≤ c.offset ∧ c.offset ≤ source.text.length ∧
    ∀ n, f.length = some n → c.offset + n ≤ source.text.length ∧ f.fragment.length = n

/-- The finding is about text that is read from a position on, and not about a name that was
declared before. -/
structure Finding.ReadFrom (b : Cursor) (f : Finding) : Prop where
  points : f.PointsFrom b
  problem : f.problem ≠ .duplicateName

namespace Finding.PointsFrom

variable {b : Cursor} {f : Finding}

theorem isSome_location (h : f.PointsFrom b) : f.location.isSome = true := by
  obtain ⟨c, hc, -⟩ := h
  rw [hc, Option.isSome_some]

/-- A finding that points from a position in a source on lies in that source, not before the
position. -/
theorem liesIn (h : f.PointsFrom b) (hb : b.inSource) : f.LiesIn b.source b.offset := by
  obtain ⟨c, hc, hlead, hlength⟩ := h
  have hsource := hlead.source_eq
  have hend := Cursor.inSource_iff.1 (hlead.inSource hb)
  have hrest := c.length_rest
  rw [hsource] at hend hrest
  refine ⟨c, hc, hsource, hlead.offset_le hb, hend, fun n hn => ?_⟩
  rw [hn, Option.getD_some] at hlength
  refine ⟨by omega, ?_⟩
  rw [fragment, hc, hn]
  exact List.length_take_of_le hlength

end Finding.PointsFrom

namespace Diagnostic

variable {b c : Cursor} {n : Nat}

theorem expectedIn_orderly (h : b.Spans c n) (e : Expectation) :
    (expectedIn c n e).Orderly (Finding.ReadFrom b) :=
  .finding ⟨⟨c, rfl, h⟩, nofun⟩

theorem finding_orderly {problem : Problem} {severity : Severity} (h : b.Leads c)
    (hproblem : problem ≠ .duplicateName) :
    (finding { location := some c, problem, severity }).Orderly (Finding.ReadFrom b) :=
  .finding ⟨⟨c, rfl, h, Nat.zero_le _⟩, hproblem⟩

theorem expected_orderly (h : b.Leads c) (e : Expectation) :
    (expected c e).Orderly (Finding.ReadFrom b) :=
  finding_orderly h nofun

/-- A failure that is not fatal may be the reason for another finding. -/
theorem expectedBecause_orderly {d : Diagnostic} (h : b.Leads c) (e : Expectation)
    (hd : d.Orderly (Finding.ReadFrom b)) (hrecoverable : d.isFatal = false) :
    (expectedBecause c e d).Orderly (Finding.ReadFrom b) :=
  .because ⟨⟨c, rfl, h, Nat.zero_le _⟩, nofun⟩ hrecoverable hd

/-- Escalation marks the root only. -/
theorem escalate_orderly {d : Diagnostic} (h : d.Orderly (Finding.ReadFrom b)) :
    d.escalate.Orderly (Finding.ReadFrom b) :=
  h.escalate fun _ hf => ⟨hf.points, hf.problem⟩

end Diagnostic

end EventRules
