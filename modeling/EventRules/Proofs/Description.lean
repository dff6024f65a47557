/-
# Descriptions determine configurations

A configuration that a program compiles to is told from its description. The lines of the
description are taken apart by their indentation: a heading is flush and what belongs to it is
indented, so a block ends where the next flush line starts. Operands of a matcher stand one after
the other without a mark between them; the second one starts at the second flush line.
-/

import EventRules.Proofs.Display
import EventRules.Proofs.WellTyped

namespace EventRules

variable {limit limit' : Width → Nat} {rest rest' : List Text}

/-! ### Calls on both sides of an arrow -/

theorem Extractor.separable (n : ExtractorName) : Arguments.Separable (ItemName.parameters n) := by
  cases n <;> decide

theorem Filter.separable (n : FilterName) : Arguments.Separable (ItemName.parameters n) := by
  cases n <;> decide

theorem Producer.separable (n : ProducerName) : Arguments.Separable (ItemName.parameters n) := by
  cases n <;> decide

namespace Item

variable {ν : Type} [ItemName ν]

/-- A line for an extractor and an item is not indented. -/
theorem flush_arrow (e : Extractor) (i : Item ν) :
    (e.text ++ " -> " ++ i.text).head? ≠ some ' ' := by
  intro hspace
  have hstarts : Text.Starts isNameStart (e.text ++ " -> " ++ i.text) := by
    rw [List.append_assoc, text_append]
    exact (Spelled.isName e.name).1.append _
  rw [Text.Starts, hspace] at hstarts
  exact absurd hstarts (by decide)

/-- A line with an arrow shows calls, so it is no heading. -/
theorem arrow_ne {title : Text} (htitle : title.Lacks '(') (e : Extractor) (i : Item ν) :
    e.text ++ " -> " ++ i.text ≠ title := by
  rintro rfl
  apply htitle
  rw [List.append_assoc, text_append]
  simp

variable [Spelled ν]

theorem oneLine_arrow (e : Extractor) (i : Item ν) : Text.OneLine (e.text ++ " -> " ++ i.text) :=
  .append (.append (oneLine_text (Spelled.isName _)) (by decide)) (oneLine_text (Spelled.isName _))

/-- Two calls are told from the line that shows them with an arrow between. -/
theorem arrow_inj (hps : ∀ n : ν, Arguments.Separable (ItemName.parameters n)) {e e' : Extractor}
    {i i' : Item ν} (he : e.Fits limit) (he' : e'.Fits limit') (hi : i.Fits limit)
    (hi' : i'.Fits limit') (h : e.text ++ " -> " ++ i.text = e'.text ++ " -> " ++ i'.text) :
    e = e' ∧ i = i' := by
  rw [List.append_assoc, List.append_assoc] at h
  obtain ⟨rfl, h⟩ := text_append_inj Extractor.separable he he' h
  have htext : i.text ++ [] = i'.text ++ [] := by
    simpa using List.append_cancel_left h
  exact ⟨rfl, (text_append_inj hps hi hi' htext).1⟩

end Item

/-! ### Matchers -/

namespace Matcher

theorem flush_lines (m : Matcher) : Text.Flush m.lines := by
  cases m with
  | single e f => exact Text.flush_cons.2 (Item.flush_arrow e f)
  | and l r | or l r | not m => exact Text.flush_cons.2 (by decide)

theorem oneLine_lines (m : Matcher) : ∀ t ∈ m.lines, t.OneLine := by
  induction m with
  | single e f => exact List.forall_mem_singleton.2 (Item.oneLine_arrow e f)
  | and l r ihl ihr | or l r ihl ihr =>
    apply Text.lacks_of_mem_heading (by decide) (by decide)
    exact List.forall_mem_append.2 ⟨ihl, ihr⟩
  | not m ih => exact Text.lacks_of_mem_heading (by decide) (by decide) ih

/-- A matcher and the lines after it are told from the lines, if those after it are flush. -/
theorem lines_append_inj {m n : Matcher} (hm : m.Fits limit) (hn : n.Fits limit')
    (hrest : Text.Flush rest) (hrest' : Text.Flush rest')
    (h : m.lines ++ rest = n.lines ++ rest') : m = n ∧ rest = rest' := by
  have hpair : ∀ {l r l' r' : Matcher}, l.lines ++ r.lines = l'.lines ++ r'.lines →
      (∀ {rest rest' : List Text}, Text.Flush rest → Text.Flush rest' →
        l.lines ++ rest = l'.lines ++ rest' → l = l' ∧ rest = rest') →
      (∀ {rest rest' : List Text}, Text.Flush rest → Text.Flush rest' →
        r.lines ++ rest = r'.lines ++ rest' → r = r' ∧ rest = rest') → l = l' ∧ r = r' := by
    intro l r l' r' h hl hr
    obtain ⟨rfl, hlines⟩ := hl r.flush_lines r'.flush_lines h
    refine ⟨rfl, (hr Text.flush_nil Text.flush_nil ?_).1⟩
    rw [hlines]
  -- by induction on one matcher; the first line tells which form the other one has
  induction m generalizing n rest rest' with
  | single e f =>
    cases n with
    | single e' f' =>
      obtain ⟨hline, rfl⟩ := List.cons.inj h
      obtain ⟨rfl, rfl⟩ := Item.arrow_inj Filter.separable hm.1 hn.1 hm.2 hn.2 hline
      exact ⟨rfl, rfl⟩
    | and | or | not => exact absurd (List.cons.inj h).1 (Item.arrow_ne (by decide) e f)
  | and l r ihl ihr =>
    cases n with
    | and l' r' =>
      obtain ⟨-, hbody, rfl⟩ := Text.heading_append_inj hrest hrest' h
      obtain ⟨rfl, rfl⟩ := hpair hbody (ihl hm.1 hn.1) (ihr hm.2 hn.2)
      exact ⟨rfl, rfl⟩
    | single e f => exact absurd (List.cons.inj h).1.symm (Item.arrow_ne (by decide) e f)
    | or | not => exact absurd (List.cons.inj h).1 (by decide)
  | or l r ihl ihr =>
    cases n with
    | or l' r' =>
      obtain ⟨-, hbody, rfl⟩ := Text.heading_append_inj hrest hrest' h
      obtain ⟨rfl, rfl⟩ := hpair hbody (ihl hm.1 hn.1) (ihr hm.2 hn.2)
      exact ⟨rfl, rfl⟩
    | single e f => exact absurd (List.cons.inj h).1.symm (Item.arrow_ne (by decide) e f)
    | and | not => exact absurd (List.cons.inj h).1 (by decide)
  | not m ih =>
    cases n with
    | not n =>
      obtain ⟨-, hbody, rfl⟩ := Text.heading_append_inj hrest hrest' h
      obtain ⟨rfl, -⟩ := ih (n := n) hm hn Text.flush_nil Text.flush_nil (by rw [hbody])
      exact ⟨rfl, rfl⟩
    | single e f => exact absurd (List.cons.inj h).1.symm (Item.arrow_ne (by decide) e f)
    | and | or => exact absurd (List.cons.inj h).1 (by decide)

/-- Matchers with the same lines are the same. -/
theorem lines_injective {m n : Matcher} (hm : m.Fits limit) (hn : n.Fits limit')
    (h : m.lines = n.lines) : m = n :=
  (lines_append_inj hm hn Text.flush_nil Text.flush_nil (by rw [h])).1

end Matcher

/-! ### Rules -/

namespace Creator

/-- The lines that show a guard, if there is one. -/
def guardLines : Option Matcher → List Text
  | none => []
  | some m => Text.indent (Text.heading "if" m.lines)

theorem lines_eq (c : Creator) :
    c.lines = (c.extractor.text ++ " -> " ++ c.producer.text) :: guardLines c.guard := by
  rw [lines]
  cases c.guard <;> rfl

theorem oneLine_lines (c : Creator) : ∀ t ∈ c.lines, t.OneLine := by
  rw [lines_eq]
  refine List.forall_mem_cons.2 ⟨Item.oneLine_arrow _ _, ?_⟩
  cases c.guard with
  | none => exact fun _ h => nomatch h
  | some m =>
    have hif : ∀ t ∈ Text.heading "if" m.lines, t.OneLine :=
      Text.lacks_of_mem_heading (by decide) (by decide) m.oneLine_lines
    refine List.forall_mem_map.2 fun t ht => ?_
    exact .append (t := [' ', ' ']) (by decide) (hif t ht)

/-- Guards with the same lines are the same. -/
theorem guardLines_injective {g g' : Option Matcher} (hg : ∀ m, g = some m → m.Fits limit)
    (hg' : ∀ m, g' = some m → m.Fits limit') (h : guardLines g = guardLines g') : g = g' := by
  cases g with
  | none =>
    cases g' with
    | none => rfl
    | some m => cases h
  | some m =>
    cases g' with
    | none => cases h
    | some m' =>
      have hlines := (Text.heading_inj (Text.indent_injective h)).2
      rw [Matcher.lines_injective (hg m rfl) (hg' m' rfl) hlines]

/-- Creators with the same lines are the same. -/
theorem lines_injective {c d : Creator} (hc : c.Fits limit) (hd : d.Fits limit')
    (h : c.lines = d.lines) : c = d := by
  rw [lines_eq, lines_eq] at h
  obtain ⟨hline, hguard⟩ := List.cons.inj h
  obtain ⟨hextractor, hproducer⟩ :=
    Item.arrow_inj Producer.separable hc.1 hd.1 hc.2.1 hd.2.1 hline
  obtain ⟨e, i, g⟩ := c
  obtain ⟨e', i', g'⟩ := d
  rw [Creator.mk.injEq]
  exact ⟨hextractor, hproducer, guardLines_injective hc.2.2 hd.2.2 hguard⟩

/-- The lines that show what a rule fires. -/
def allLines (cs : List Creator) : List Text :=
  cs.flatMap fun c => Text.heading "fire" c.lines

theorem flush_allLines (cs : List Creator) : Text.Flush (allLines cs) := by
  cases cs with
  | nil => exact Text.flush_nil
  | cons c cs => exact Text.flush_cons.2 (by decide)

/-- Creators in a row are told apart by their lines, since the next heading ends the block below the
one before it. -/
theorem allLines_injective {cs ds : List Creator} (hcs : ∀ c ∈ cs, c.Fits limit)
    (hds : ∀ d ∈ ds, d.Fits limit') (h : allLines cs = allLines ds) : cs = ds := by
  induction cs generalizing ds with
  | nil =>
    cases ds with
    | nil => rfl
    | cons d ds => cases h
  | cons c cs ih =>
    cases ds with
    | nil => cases h
    | cons d ds =>
      rw [List.forall_mem_cons] at hcs hds
      obtain ⟨-, hlines, hrest⟩ :=
        Text.heading_append_inj (flush_allLines cs) (flush_allLines ds) h
      rw [lines_injective hcs.1 hds.1 hlines, ih hcs.2 hds.2 hrest]

end Creator

namespace EventProcessor

theorem lines_eq (p : EventProcessor) :
    p.lines = Text.heading "match" p.matcher.lines ++ Creator.allLines p.creators :=
  rfl

theorem oneLine_lines (p : EventProcessor) : ∀ t ∈ p.lines, t.OneLine := by
  rw [lines_eq]
  refine List.forall_mem_append.2 ⟨?_, fun t ht => ?_⟩
  · exact Text.lacks_of_mem_heading (by decide) (by decide) p.matcher.oneLine_lines
  · obtain ⟨c, -, ht⟩ := List.mem_flatMap.1 ht
    exact Text.lacks_of_mem_heading (by decide) (by decide) c.oneLine_lines t ht

/-- Event processors with the same lines are the same. -/
theorem lines_injective {p q : EventProcessor} (hp : p.Fits limit) (hq : q.Fits limit')
    (h : p.lines = q.lines) : p = q := by
  rw [lines_eq, lines_eq] at h
  obtain ⟨-, hmatcher, hcreators⟩ :=
    Text.heading_append_inj (Creator.flush_allLines _) (Creator.flush_allLines _) h
  obtain ⟨m, cs⟩ := p
  obtain ⟨n, ds⟩ := q
  rw [EventProcessor.mk.injEq]
  exact ⟨Matcher.lines_injective hp.1 hq.1 hmatcher,
    Creator.allLines_injective hp.2 hq.2 hcreators⟩

end EventProcessor

/-! ### Configurations -/

/-- The numbered entries of a table as lines, by the texts of what they hold. -/
def Text.entries {α : Type} (text : α → Text) (es : List (Nat × α)) : List Text :=
  es.map fun (i, a) => decimal i ++ ": " ++ text a

namespace Text

variable {α : Type} {text : α → Text} {es es' : List (Nat × α)}

theorem oneLine_entries (htext : ∀ a, (text a).OneLine) : ∀ t ∈ entries text es, t.OneLine := by
  refine List.forall_mem_map.2 fun e _ => ?_
  have hnumber : OneLine (decimal e.1) := fun hmem =>
    absurd (isDigit_of_mem_decimal hmem) (by decide)
  exact .append (.append hnumber (by decide)) (htext e.2)

/-- Entries are told from their lines, if what they hold is told from its text. -/
theorem entries_injective
    (htext : ∀ e ∈ es, ∀ e' ∈ es', text e.2 = text e'.2 → e.2 = e'.2)
    (h : entries text es = entries text es') : es = es' := by
  have hcolon : ∀ n : Nat, Lacks ':' (decimal n) := fun n hmem =>
    absurd (isDigit_of_mem_decimal hmem) (by decide)
  induction es generalizing es' with
  | nil =>
    cases es' with
    | nil => rfl
    | cons e' es' => cases h
  | cons e es ih =>
    cases es' with
    | nil => cases h
    | cons e' es' =>
      obtain ⟨hline, hlines⟩ := List.cons.inj h
      have hcut : decimal e.1 ++ (": " ++ text e.2) = decimal e'.1 ++ (": " ++ text e'.2) := by
        rw [← List.append_assoc, ← List.append_assoc]
        exact hline
      obtain ⟨hnumber, hrest⟩ := append_cons_inj (hcolon e.1) (hcolon e'.1) hcut
      have hvalue := htext e (by simp) e' (by simp) (List.cons.inj hrest).2
      rw [ih (fun d hd d' hd' => htext d (by simp [hd]) d' (by simp [hd'])) hlines,
        Prod.ext (decimal_injective hnumber) hvalue]

end Text

namespace Config

theorem flush_processorLines (first : Nat) (ps : List EventProcessor) :
    Text.Flush (processorLines first ps) := by
  cases ps with
  | nil => exact Text.flush_nil
  | cons p ps => exact Text.flush_cons.2 (by simp)

/-- Event processors in a row are told apart by their lines. -/
theorem processorLines_injective {first : Nat} {ps qs : List EventProcessor}
    (hps : ∀ p ∈ ps, p.Fits limit) (hqs : ∀ q ∈ qs, q.Fits limit')
    (h : processorLines first ps = processorLines first qs) : ps = qs := by
  induction ps generalizing first qs with
  | nil =>
    cases qs with
    | nil => rfl
    | cons q qs => cases h
  | cons p ps ih =>
    cases qs with
    | nil => cases h
    | cons q qs =>
      rw [List.forall_mem_cons] at hps hqs
      obtain ⟨-, hlines, hrest⟩ := Text.heading_append_inj (flush_processorLines _ ps)
        (flush_processorLines _ qs) h
      rw [EventProcessor.lines_injective hps.1 hqs.1 hlines, ih hps.2 hqs.2 hrest]

theorem oneLine_processorLines (first : Nat) (ps : List EventProcessor) :
    ∀ t ∈ processorLines first ps, t.OneLine := by
  induction ps generalizing first with
  | nil => exact fun _ h => nomatch h
  | cons p ps ih =>
    have hnumber : Text.OneLine (Text.decimal first) := fun hmem =>
      absurd (Text.isDigit_of_mem_decimal hmem) (by decide)
    refine List.forall_mem_append.2 ⟨?_, ih (first + 1)⟩
    exact Text.lacks_of_mem_heading (by decide) (.append (by decide) hnumber) p.oneLine_lines

/-- The lines of a configuration are three sections, each below a heading of its own. -/
theorem lines_eq (c : Config) :
    c.lines = Text.heading "initial state:" (Text.entries Value.text c.initialState.entries) ++
      (Text.heading "event processors:" (processorLines 0 c.processors) ++
        Text.heading "peripherals:" (Text.entries Peripheral.text c.peripherals.entries)) :=
  List.append_assoc ..

theorem oneLine_lines (c : Config) : ∀ t ∈ c.lines, t.OneLine := by
  rw [lines_eq]
  refine List.forall_mem_append.2 ⟨?_, List.forall_mem_append.2 ⟨?_, ?_⟩⟩
  · exact Text.lacks_of_mem_heading (by decide) (by decide)
      (Text.oneLine_entries Value.oneLine_text)
  · exact Text.lacks_of_mem_heading (by decide) (by decide) (oneLine_processorLines 0 _)
  · exact Text.lacks_of_mem_heading (by decide) (by decide)
      (Text.oneLine_entries Peripheral.oneLine_text)

/-- A configuration in which everything fits is told from its description. -/
theorem describe_injective {c d : Config} (hc : c.Fits limit) (hd : d.Fits limit')
    (h : c.describe = d.describe) : c = d := by
  have hne : ∀ c : Config, c.lines ≠ [] := fun c => List.cons_ne_nil _ _
  have hlines : c.lines = d.lines :=
    Text.join_injective (hne c) (hne d) c.oneLine_lines d.oneLine_lines h
  rw [lines_eq, lines_eq] at hlines
  obtain ⟨-, hstate, hlines⟩ := Text.heading_append_inj (Text.flush_cons.2 (by decide))
    (Text.flush_cons.2 (by decide)) hlines
  obtain ⟨-, hprocessors, hlines⟩ := Text.heading_append_inj (Text.flush_cons.2 (by decide))
    (Text.flush_cons.2 (by decide)) hlines
  have hperipherals := (Text.heading_inj hlines).2
  obtain ⟨state, processors, peripherals⟩ := c
  obtain ⟨state', processors', peripherals'⟩ := d
  rw [Config.mk.injEq]
  refine ⟨Table.ext_entries ?_, ?_, Table.ext_entries ?_⟩
  · exact Text.entries_injective (fun e he e' he' =>
      Value.text_injective (hc.initialState e he) (hd.initialState e' he')) hstate
  · exact processorLines_injective hc.processors hd.processors hprocessors
  · exact Text.entries_injective (fun e he e' he' =>
      Peripheral.text_injective (hc.peripherals e he).2 (hd.peripherals e' he').2) hperipherals

end Config

namespace Options

/-- Whatever they are compiled from and under whatever options, two configurations with the same
description are the same. -/
theorem config_eq_of_describe_eq [NestingLimit] (o o' : Options) (name name' text text' : Text)
    (p p' : Program) (hp : (o.compileText name text).outcome = .ok p)
    (hp' : (o'.compileText name' text').outcome = .ok p')
    (h : p.config.describe = p'.config.describe) : p.config = p'.config := by
  have hfits : ∀ {o : Options} {name text : Text} {p : Program},
      (o.compileText name text).outcome = .ok p → p.config.Fits fun w => w.size + text.length := by
    -- slots are numbered on, so their numbers are bounded by the length of the program alone
    intro o name text p hp
    apply (fits_of_compile (fun w => Nat.le_add_right _ _) _ hp).config
    exact Nat.le_add_left _ _
  exact Config.describe_injective (hfits hp) (hfits hp') h

/-- The description of a configuration with one slot and one rule. -/
def tickDescription : Text :=
  Text.ofLines
    ["initial state:",
      "  0: 0x01~u8",
      "event processors:",
      "  #0",
      "    match",
      "      EventCodeExtractor() -> ValueEqualToConstFilter(0x000a~u16)",
      "peripherals:"]

/-- Two programs with the same description, which differ in a name, a comment and a clause. -/
theorem config_eq_of_tickDescription :
    ∃ p p',
      (({} : Options).compileText "a" "let a = 1~u8; do \x7b match tick; \x7d").outcome = .ok p ∧
      (({ eventCodes := false } : Options).compileText "b"
        "let b = 0x1~u8; // off\ndo \x7b match event 10~u16; \x7d").outcome = .ok p' ∧
      p.config.describe = tickDescription ∧ p.config = p'.config := by
  obtain ⟨p, hp, hdescription⟩ := exists_of_toOption_map (f := fun p : Program => p.config.describe)
    (b := tickDescription)
    (x := (({} : Options).compileText "a" "let a = 1~u8; do \x7b match tick; \x7d").outcome)
    (by decide +kernel)
  obtain ⟨p', hp', hdescription'⟩ := exists_of_toOption_map
    (f := fun p : Program => p.config.describe) (b := tickDescription)
    (x := (({ eventCodes := false } : Options).compileText "b"
      "let b = 0x1~u8; // off\ndo \x7b match event 10~u16; \x7d").outcome) (by decide +kernel)
  exact ⟨p, p', hp, hp', hdescription,
    config_eq_of_describe_eq _ _ _ _ _ _ p p' hp hp' (hdescription.trans hdescription'.symm)⟩

end Options

end EventRules
