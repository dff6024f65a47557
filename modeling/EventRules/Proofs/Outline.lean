/-
# The outline of a diagnostic

A diagnostic is shown as the list of its nodes, each node before the nodes below it. A finding has a
line of its own, and so has a choice, unless it is the reason of a finding: then that finding
announces it. A line is indented by two spaces for each node above it that has a line.

No line is broken, since an excerpt stays on the first line of the text that it shows. The width of
the excerpts decides where they end, but neither how many lines there are nor their indentation.
-/

import EventRules.Proofs.DiagnosticTree
import EventRules.Proofs.Line
import EventRules.Proofs.Numeral
import Mathlib.Data.List.DropRight

namespace EventRules

/-! ### Excerpts -/

namespace Text

/-- The number of spaces that a line starts with. -/
def indentation (line : Text) : Nat :=
  (line.takeWhile (· = ' ')).length

/-- The first line of a text that is not blank, without the white space around it. -/
def firstLine (t : Text) : Text :=
  trimEnd (t.trimStart.takeWhile (· ≠ '\n'))

/-- What an excerpt of a text looks like. Of white space nothing is shown. Otherwise it is the start
of the text behind its leading white space, up to the end of the line or the given width, in
quotation marks; three dots say that the line goes on. -/
inductive IsExcerpt (width : Nat) (t : Text) : Text → Prop
  | nothing (h : ∀ c ∈ t, isBlank c) : IsExcerpt width t "end of input"
  | quotation {p : Text} (h : ∃ c ∈ t, ¬ isBlank c) (hne : p ≠ []) (hstart : p <+: t.trimStart)
      (hline : Lacks '\n' p) (hlength : p.length ≤ width) (hp : p = t.firstLine.take width) :
      IsExcerpt width t
        ('"' :: (p ++ ((if width < t.firstLine.length then ("..." : Text) else []) ++ ['"'])))

variable {t : Text} {width : Nat}

theorem trimStart_eq_nil_iff : t.trimStart = [] ↔ ∀ c ∈ t, isBlank c := by
  rw [trimStart, List.dropWhile_eq_nil_iff]

theorem firstLine_prefix (t : Text) : t.firstLine <+: t.trimStart :=
  (List.rdropWhile_prefix _ _).trans (List.takeWhile_prefix _)

theorem lacks_firstLine (t : Text) : t.firstLine.Lacks '\n' := by
  intro hmem
  have hline : '\n' ∈ t.trimStart.takeWhile (· ≠ '\n') := (List.rdropWhile_prefix _ _).subset hmem
  simpa using List.mem_takeWhile_imp hline

/-- What is left of a text that is not blank starts with a character of its first line. -/
theorem firstLine_ne_nil (h : ¬ ∀ c ∈ t, isBlank c) : t.firstLine ≠ [] := by
  rw [← trimStart_eq_nil_iff] at h
  obtain ⟨a, rest, hstart⟩ := List.exists_cons_of_ne_nil h
  have ha : isBlank a = false := by
    have hhead := List.head?_dropWhile_not isBlank t
    rw [← trimStart, hstart] at hhead
    exact hhead
  have hfeed : a ≠ '\n' := by
    rintro rfl
    exact absurd ha (by decide)
  intro hnil
  have hblank := List.rdropWhile_eq_nil_iff.1 hnil a (by simp [hstart, hfeed])
  simp [ha] at hblank

/-- A text that is not blank is shown by its first line in quotes, cut after the width. -/
theorem excerpt_of_not_blank (h : ¬ ∀ c ∈ t, isBlank c) : excerpt width t =
    '"' :: (t.firstLine.take width ++
      ((if width < t.firstLine.length then ("..." : Text) else []) ++ ['"'])) := by
  have hstart : t.trimStart ≠ [] := trimStart_eq_nil_iff.not.2 h
  have hexcerpt : excerpt width t =
      if t.firstLine.length > width then '"' :: (t.firstLine.take width ++ ['.', '.', '.', '"'])
      else '"' :: (t.firstLine ++ ['"']) := by
    rw [excerpt, if_neg (by simpa using hstart)]
    rfl
  rw [hexcerpt]
  by_cases hlt : width < t.firstLine.length
  · simp [hlt]
  · simp [hlt, List.take_of_length_le (Nat.le_of_not_lt hlt)]

/-- An excerpt looks as it should. -/
theorem isExcerpt_excerpt (hwidth : 1 ≤ width) (t : Text) :
    IsExcerpt width t (excerpt width t) := by
  by_cases hblank : ∀ c ∈ t, isBlank c
  · rw [excerpt, if_pos (by simpa [trimStart_eq_nil_iff] using hblank)]
    exact .nothing hblank
  · rw [excerpt_of_not_blank hblank]
    refine .quotation ?_ ?_ ((List.take_prefix _ _).trans t.firstLine_prefix) ?_ ?_ rfl
    · simpa using hblank
    · simp [firstLine_ne_nil hblank]
      omega
    · exact fun hmem => t.lacks_firstLine (List.mem_of_mem_take hmem)
    · exact List.length_take_le _ _

theorem IsExcerpt.lacks {e : Text} (h : IsExcerpt width t e) : e.Lacks '\n' := by
  cases h with
  | nothing => decide
  | quotation _ _ _ hline _ _ =>
    refine Lacks.cons (by decide) (hline.append (Lacks.append ?_ (by decide)))
    split <;> decide

end Text

/-! ### Nodes and what is above them -/

namespace Diagnostic

/-- A node of a diagnostic, and the nodes above it from the closest one up to the root. -/
structure Place where
  node : Diagnostic
  above : List Diagnostic

namespace Place

/-- All nodes have a line of their own, except choices right below a finding. -/
def hasLine (p : Place) : Bool :=
  !(p.node.isChoice && p.above.head?.any (·.finding?.isSome))

/-- The number of nodes with a line in a chain that leads up to the root. -/
def levels : List Diagnostic → Nat
  | [] => 0
  | d :: above => if (Place.mk d above).hasLine then levels above + 1 else levels above

theorem levels_of_hasLine {d : Diagnostic} {above : List Diagnostic}
    (h : (Place.mk d above).hasLine) : levels (d :: above) = levels above + 1 :=
  if_pos h

theorem levels_of_not_hasLine {d : Diagnostic} {above : List Diagnostic}
    (h : ¬ (Place.mk d above).hasLine) : levels (d :: above) = levels above :=
  if_neg h

end Place

mutual

/-- The nodes of a diagnostic with all that is above them, each before the nodes below it. -/
def placesIn (above : List Diagnostic) : Diagnostic → List Place
  | finding f => [⟨finding f, above⟩]
  | because f reason =>
    ⟨because f reason, above⟩ :: placesIn (because f reason :: above) reason
  | oneOf alternatives s =>
    ⟨oneOf alternatives s, above⟩ :: placesInAll (oneOf alternatives s :: above) alternatives

/-- The nodes of several diagnostics right below the same node. -/
def placesInAll (above : List Diagnostic) : List Diagnostic → List Place
  | [] => []
  | d :: ds => placesIn above d ++ placesInAll above ds

end

/-- The nodes of a diagnostic in their order. -/
def places (d : Diagnostic) : List Place :=
  placesIn [] d

/-- What the line of a node says. -/
def headline (width : Nat) : Diagnostic → Text
  | finding f => f.line width
  | because f reason =>
    f.line width ++ if reason.isChoice then " caused by one of:" else " caused by:"
  | oneOf _ _ => "one of:"

/-- The line of a node, two spaces to the right for each node with a line above it. -/
def Place.line (width : Nat) (p : Place) : Text :=
  List.replicate (2 * levels p.above) ' ' ++ p.node.headline width

variable {d : Diagnostic} {ds above : List Diagnostic} {width : Nat}

mutual

/-- Every node of a diagnostic has its place, in the order of the nodes. -/
theorem map_node_placesIn (above : List Diagnostic) (d : Diagnostic) :
    (placesIn above d).map (·.node) = d.nodes := by
  cases d with
  | finding f => rfl
  | because f reason =>
    rw [placesIn, List.map_cons, map_node_placesIn]
    rfl
  | oneOf alternatives s =>
    rw [placesIn, List.map_cons, map_node_placesInAll, nodes, descendants]

theorem map_node_placesInAll (above : List Diagnostic) (ds : List Diagnostic) :
    (placesInAll above ds).map (·.node) = nodesOfAll ds := by
  cases ds with
  | nil => rfl
  | cons d ds =>
    rw [placesInAll, List.map_append, map_node_placesIn, map_node_placesInAll]
    rfl

end

/-! ### Lines -/

/-- A reason that is no choice is shown below its finding. -/
theorem lines_because {f : Finding} {reason : Diagnostic} (h : reason.isChoice = false) :
    lines width (because f reason) =
      Text.heading ((because f reason).headline width) (lines width reason) := by
  cases reason with
  | oneOf => cases h
  | finding | because => rfl

/-- Further lines one level below a line are two spaces further to the right than it is. -/
theorem map_heading (n : Nat) (title : Text) (body : List Text) :
    (Text.heading title body).map (List.replicate (2 * n) ' ' ++ ·) =
      (List.replicate (2 * n) ' ' ++ title) ::
        body.map (List.replicate (2 * (n + 1)) ' ' ++ ·) := by
  have hindent : List.replicate (2 * (n + 1)) ' ' = List.replicate (2 * n) ' ' ++ [' ', ' '] :=
    List.replicate_add ..
  simp [Text.heading, Text.indent, hindent, Function.comp_def]

mutual

/-- The lines of a diagnostic are those of its places, each indented by its level. A choice has no
line, so its alternatives are one level below the finding. -/
theorem map_lines (width : Nat) (above : List Diagnostic) (d : Diagnostic)
    (h : (Place.mk d above).hasLine) :
    (lines width d).map (List.replicate (2 * Place.levels above) ' ' ++ ·) =
      ((placesIn above d).filter (·.hasLine)).map (·.line width) := by
  have hlevels := Place.levels_of_hasLine h
  cases d with
  | finding f =>
    rw [placesIn, List.filter_cons_of_pos h]
    rfl
  | because f reason =>
    rw [placesIn, List.filter_cons_of_pos h, List.map_cons]
    by_cases hreason : reason.isChoice
    · cases reason with
      | finding | because => cases hreason
      | oneOf alternatives s =>
        -- the choice has no line, so its alternatives are one level below the finding
        have hchoice : ¬ (Place.mk (oneOf alternatives s)
            (because f (oneOf alternatives s) :: above)).hasLine := by
          simp [Place.hasLine, isChoice, finding?]
        have hbelow := (Place.levels_of_not_hasLine hchoice).trans hlevels
        rw [lines, map_heading, placesIn, List.filter_cons_of_neg hchoice, ← hbelow]
        congr 1
        exact map_linesOfAll width _ alternatives (by simp [finding?])
    · rw [lines_because (by simpa using hreason), map_heading, ← hlevels,
        map_lines width _ reason (by simp [Place.hasLine, hreason])]
      rfl
  | oneOf alternatives s =>
    rw [lines, map_heading, placesIn, List.filter_cons_of_pos h, List.map_cons, ← hlevels]
    congr 1
    exact map_linesOfAll width _ alternatives (by simp [finding?])

theorem map_linesOfAll (width : Nat) (above : List Diagnostic) (ds : List Diagnostic)
    (h : above.head?.any (·.finding?.isSome) = false) :
    (linesOfAll width ds).map (List.replicate (2 * Place.levels above) ' ' ++ ·) =
      ((placesInAll above ds).filter (·.hasLine)).map (·.line width) := by
  cases ds with
  | nil => rfl
  | cons d ds =>
    have hline : (Place.mk d above).hasLine := by simp [Place.hasLine, h]
    rw [linesOfAll, List.map_append, map_lines width above d hline, map_linesOfAll width above ds h,
      placesInAll, List.filter_append, List.map_append]

end

/-- A diagnostic is shown by the lines of its nodes, in their order. -/
theorem lines_eq (width : Nat) (d : Diagnostic) :
    lines width d = (d.places.filter (·.hasLine)).map (·.line width) := by
  simpa [Place.levels, places] using map_lines width [] d (by simp [Place.hasLine])

end Diagnostic

/-! ### What is on a line -/

namespace Finding

variable {f : Finding} {width : Nat}

/-- Neither the words for what is wrong nor the name of the source break the line. -/
structure Unbroken (f : Finding) : Prop where
  message : f.problem.message.Lacks '\n'
  name {c : Cursor} : f.location = some c → c.source.name.Lacks '\n'

theorem line_eq_of_none (h : f.location = none) : f.line width = f.problem.message := by
  rw [line, h]

/-- A finding with a location is shown with the location and an excerpt. -/
theorem line_eq_of_some {c : Cursor} (h : f.location = some c) :
    f.line width = f.problem.message ++ " at " ++ c.location.text ++ ": " ++
      excerpt width f.fragment := by
  rw [line, h]

/-- A finding is shown on one line. -/
theorem lacks_line (hwidth : 1 ≤ width) (hf : f.Unbroken) : (f.line width).Lacks '\n' := by
  cases hlocation : f.location with
  | none => exact line_eq_of_none hlocation ▸ hf.message
  | some c =>
    have hdecimal (n : Nat) : (Text.decimal n).Lacks '\n' := fun hmem =>
      absurd (Text.isDigit_of_mem_decimal hmem) (by decide)
    have htext : c.location.text.Lacks '\n' :=
      ((((hf.name hlocation).append (by decide)).append (hdecimal _)).append (by decide)).append
        (hdecimal _)
    rw [line_eq_of_some hlocation]
    exact (((hf.message.append (by decide)).append htext).append (by decide)).append
      (Text.isExcerpt_excerpt hwidth f.fragment).lacks

end Finding

namespace Diagnostic

variable {d : Diagnostic} {width : Nat}

theorem finding?_mem_findings {p : Place} {f : Finding} (hp : p ∈ d.places)
    (hf : p.node.finding? = some f) : f ∈ d.findings := by
  refine List.mem_filterMap.2 ⟨p.node, ?_, hf⟩
  rw [← map_node_placesIn []]
  exact List.mem_map_of_mem hp

/-- The headline of a diagnostic is one line. -/
theorem lacks_headline (hwidth : 1 ≤ width) (h : ∀ f ∈ d.finding?, f.Unbroken) :
    (d.headline width).Lacks '\n' := by
  cases d with
  | finding f => exact Finding.lacks_line hwidth (h f rfl)
  | because f reason =>
    refine (Finding.lacks_line hwidth (h f rfl)).append ?_
    split <;> decide
  | oneOf => exact (by decide : Text.Lacks '\n' "one of:")

theorem head?_headline (width : Nat) (d : Diagnostic) : (d.headline width).head?.any (· ≠ ' ') := by
  have hmessage (problem : Problem) : problem.message.head?.any (· ≠ ' ') := by
    cases problem <;> rfl
  have happend {t : Text} (ht : t.head?.any (· ≠ ' ')) (u : Text) :
      (t ++ u).head?.any (· ≠ ' ') := by
    cases t with
    | nil => cases ht
    | cons c t => exact ht
  have hline (f : Finding) : (f.line width).head?.any (· ≠ ' ') := by
    cases hlocation : f.location with
    | none => exact Finding.line_eq_of_none hlocation ▸ hmessage f.problem
    | some c =>
      rw [Finding.line_eq_of_some hlocation]
      simp only [List.append_assoc]
      exact happend (hmessage f.problem) _
  cases d with
  | finding f => exact hline f
  | because f reason => exact happend (hline f) _
  | oneOf => rfl

/-- A line is indented by two spaces for each line above it in the tree. -/
theorem indentation_line (width : Nat) (p : Place) :
    (p.line width).indentation = 2 * Place.levels p.above := by
  have hhead := head?_headline width p.node
  rw [Text.indentation, Place.line, List.takeWhile_append_of_pos (by simp)]
  cases hline : p.node.headline width with
  | nil => simp
  | cons c t =>
    rw [hline] at hhead
    simp_all

/-- What is shown of a diagnostic has a line for each place that has one, and no other lines. -/
theorem lines_render (hd : ∀ f ∈ d.findings, f.Unbroken) (hwidth : 1 ≤ width) :
    Text.lines (d.render width) = (d.places.filter (·.hasLine)).map (·.line width) := by
  have hne : lines width d ≠ [] := by
    rw [lines_eq]
    cases d <;> simp [places, placesIn, Place.hasLine]
  have hlacks : ∀ line ∈ lines width d, line.Lacks '\n' := by
    simp only [lines_eq, List.forall_mem_map]
    intro p hp
    refine Text.Lacks.append (by simp [Text.Lacks]) (lacks_headline hwidth fun f hf => ?_)
    exact hd f (finding?_mem_findings (List.mem_of_mem_filter hp) hf)
  rw [render, Text.lines_ofLines hne hlacks, lines_eq]

/-- A diagnostic is shown by one line for each of its nodes, in the order of the tree, except that a
choice right below a finding is announced on the line of the finding. A line is indented by two
spaces for each line above it in the tree. What a finding is about is shown by an excerpt of the
text at fault. The width of the excerpts changes neither the number of the lines nor their
indentation. -/
theorem render_outline (d : Diagnostic) (hd : ∀ f ∈ d.findings, f.Unbroken) (width : Nat)
    (hwidth : 1 ≤ width) :
    Text.lines (d.render width) = (d.places.filter (·.hasLine)).map (·.line width) ∧
    d.places.map (·.node) = d.nodes ∧
    (∀ f ∈ d.findings,
      (f.location = none → f.line width = f.problem.message) ∧
      ∀ c, f.location = some c → ∃ e, Text.IsExcerpt width f.fragment e ∧
        f.line width = f.problem.message ++ " at " ++ c.location.text ++ ": " ++ e) ∧
    ∀ width', 1 ≤ width' →
      (Text.lines (d.render width')).map Text.indentation =
        (Text.lines (d.render width)).map Text.indentation := by
  refine ⟨lines_render hd hwidth, map_node_placesIn [] d, fun f _ => ⟨Finding.line_eq_of_none, ?_⟩,
    fun width' hwidth' => ?_⟩
  · intro c hc
    exact ⟨_, Text.isExcerpt_excerpt hwidth f.fragment, Finding.line_eq_of_some hc⟩
  · rw [lines_render hd hwidth, lines_render hd hwidth', List.map_map, List.map_map]
    congr 1
    funext p
    simp only [Function.comp_apply, indentation_line]

/-- A finding with a choice below it, in which another choice stands. -/
theorem render_outline_choices :
    let c := (Source.mk "f" "a\nb cd").cursor 2
    let d := expectedBecause c .name (oneOf [oneOf [expected c .letter] .recoverable] .recoverable)
    (∀ f ∈ d.findings, f.Unbroken) ∧ Text.lines (d.render 1) =
      (["expected a name at f:2:1: \"b...\" caused by one of:", "  one of:",
        "    expected an ascii letter at f:2:1: \"b...\""] : List Text) := by
  intro c d
  have hd : ∀ f ∈ d.findings, f.Unbroken := by
    have hexpected (e : Expectation) (he : (Problem.expected e).message.Lacks '\n') :
        Finding.Unbroken { location := some c, problem := .expected e } := by
      refine ⟨he, fun hc => ?_⟩
      cases hc
      decide
    exact List.forall_mem_cons.2 ⟨hexpected .name (by decide), List.forall_mem_cons.2
      ⟨hexpected .letter (by decide), List.forall_mem_nil _⟩⟩
  exact ⟨hd, (render_outline d hd 1 (by decide)).1.trans (by decide)⟩

end Diagnostic

end EventRules
