/-
# Written items and matchers

How arguments, items and matchers are written out in full in the language: arguments as literals,
and every matcher with its extractor and its filter in braces. What is written is read back as it
was, in any scope in which no constant is called `true` or `false`.
-/

import EventRules.Proofs.LiteralReading
import EventRules.Proofs.Spelling

namespace EventRules

/-! ### Arguments -/

/-- The literal that stands for an argument. -/
def ParameterType.literal : (p : ParameterType) → p.Argument → Literal
  | u8, n => .int .u8 n
  | u16, n | address, n => .int .u16 n
  | u32, n => .int .u32 n
  | bool, b => .bool b
  | value, .int width n => .int width n
  | value, .bool b => .bool b
  | value, .colour c => .colour c
  | messageValue, .int width n => .int width n
  | messageValue, .bool b => .bool b
  | bcmValue, .single n => .int .u8 n
  | bcmValue, .colour c => .colour c
  | relayValue, .single b => .bool b
  | relayValue, .pair state => .string state.word
  | cron, c => .string c.text

namespace ParameterType

variable {p : ParameterType} {a : p.Argument}

/-- The literal for an argument that fits converts to that argument. -/
theorem convert_literal (h : p.Fits Width.size a) : p.convert (p.literal a) = .ok a := by
  cases p with
  | u8 | u16 | address | u32 | bool => rfl
  | value => cases a <;> rfl
  | messageValue => cases a <;> rfl
  | bcmValue => cases a <;> rfl
  | relayValue =>
    cases a with
    | single b => rfl
    | pair state => cases state <;> rfl
  | cron =>
    have hread := Cron.read_text h
    simp only [literal, convert, hread]

/-- The literal for an argument that fits is in range. -/
theorem fits_literal (h : p.Fits Width.size a) : (p.literal a).Fits Width.size := by
  cases p with
  | u8 | u16 | address | u32 => exact h
  | bool => trivial
  | value => cases a <;> exact h
  | messageValue => cases a <;> exact h
  | bcmValue => cases a <;> exact h
  | relayValue =>
    cases a with
    | single b => trivial
    | pair state =>
      change '"' ∉ state.word
      cases state <;> decide
  | cron =>
    intro hquote
    obtain hspace | ⟨t, ht, hquote⟩ := Text.mem_join hquote
    · exact absurd hspace (by decide)
    · obtain ⟨f, -, rfl⟩ := List.mem_map.1 ht
      rcases CronField.mem_text hquote with hdigit | hcomma | hstar
      · exact absurd hdigit (by decide)
      · exact absurd hcomma (by decide)
      · exact absurd hstar (by decide)

end ParameterType

/-- The literals that stand for arguments. -/
def Arguments.literals {ps : List ParameterType} (as : Arguments ps) : List Literal :=
  as.toList.map fun a => a.1.literal a.2

/-- Written arguments convert to the arguments that their literals stand for. -/
theorem Arguments.convert_of_literals {miscount : Diagnostic} {ps : List ParameterType}
    {as : Arguments ps} (h : ∀ a ∈ as.toList, a.1.Fits Width.size a.2)
    {written : List WrittenArgument} (hwritten : written.map (·.literal) = as.literals) :
    Arguments.convert miscount ps written = .ok as := by
  induction ps generalizing written with
  | nil =>
    cases as
    cases List.map_eq_nil_iff.1 hwritten
    rfl
  | cons p ps ih =>
    cases as with
    | cons a as =>
      obtain ⟨w, written, rfl, hfirst, hrest⟩ := List.map_eq_cons_iff.1 hwritten
      have hall := List.forall_mem_cons.1 h
      have hcast : p.cast w.literal (some w.location) = .ok a := by
        rw [ParameterType.cast_eq_ok_iff, hfirst]
        exact ParameterType.convert_literal hall.1
      rw [Arguments.convert, hcast, ok_bind, ih hall.2 hrest]
      rfl

/-- What comes next is of a class, and so it is no mark outside the class. -/
theorem Cursor.peek_ne_of_starts {c : Cursor} {isMember : Char → Bool} {m : Char}
    (h : c.rest.Starts isMember) (hm : isMember m = false) : c.peek ≠ [m] := by
  intro hpeek
  rw [peek] at hpeek
  cases hrest : c.rest with
  | nil => simp [hrest] at hpeek
  | cons ch t =>
    rw [hrest, Text.starts_cons] at h
    obtain rfl : ch = m := by simpa [hrest] using hpeek
    simp [hm] at h

/-- A list of literals in parentheses. -/
def Literal.listText (ls : List Literal) : Text :=
  '(' :: (Text.join ", " (ls.map text) ++ [')'])

namespace Parser

variable {constants : Table Text Literal} {v : Text}

theorem isSpace_of_mem_space : ∀ c ∈ [' '], isSpace c := by
  decide

theorem writtenArgument_reads (hclear : constants.SparesBooleans) {l : Literal}
    (hl : l.Fits Width.size) (hv : v.Stops isNameChar) :
    (writtenArgument constants).Reads l.text v (·.literal = l) :=
  .here fun _ _ _ => .of_eq (.bind (w := []) (literalOrConstant_reads hclear hl hv)
    fun _ h => .pure h) (List.append_nil _)

/-- A comma, a space and the next literal are read in turn. -/
theorem moreElements_reads (hclear : constants.SparesBooleans) {ls : List Literal}
    (hls : ∀ l ∈ ls, l.Fits Width.size) :
    (moreElements [','] (writtenArgument constants)).Reads
      (ls.flatMap fun l => ',' :: ' ' :: l.text) (')' :: v) fun as => as.map (·.literal) = ls := by
  induction ls with
  | nil =>
    intro c hc hrest
    refine ⟨[], ?_, rfl⟩
    have hskip : c.skipSpace = c := Cursor.skipSpace_eq_self hc (by rw [hrest]; rfl)
    have hpeek : c.skipSpace.peek ≠ [','] := by
      rw [hskip, Cursor.peek, hrest]
      simp
    rw [outcome_moreElements, if_neg hpeek, List.flatMap_nil, List.length_nil,
      Cursor.advance_zero hc]
  | cons l ls ih =>
    intro c hc hrest
    rw [List.forall_mem_cons] at hls
    rw [List.flatMap_cons, List.append_assoc, List.cons_append, List.cons_append] at hrest
    have hskip : c.skipSpace = c := Cursor.skipSpace_eq_self hc (by rw [hrest]; rfl)
    have hpeek : c.skipSpace.peek = [','] := by
      rw [hskip, Cursor.peek, hrest]
      rfl
    have hstops : Text.Stops isNameChar
        (ls.flatMap (fun l => ',' :: ' ' :: l.text) ++ ')' :: v) := by
      cases ls <;> exact Text.stops_cons.2 (by decide)
    have hspace : (c.skipSpace.advance 1).skipSpace = c.advance 2 := by
      rw [hskip, Cursor.skipSpace_of_rest (u := [' ']) (by rw [Cursor.rest_advance, hrest]; rfl)
        isSpace_of_mem_space ((l.starts_text.append _).stops Literal.not_isSpace),
        Cursor.advance_advance]
      rfl
    obtain ⟨a, hfirst, ha⟩ := writtenArgument_reads hclear hls.1 hstops (c.inSource_advance 2)
      (by rw [Cursor.rest_advance, hrest]; rfl)
    obtain ⟨as, hmore, has⟩ := ih hls.2 (Cursor.inSource_advance (c.advance 2) l.text.length)
      (by rw [Cursor.rest_advance, Cursor.rest_advance, hrest]; exact List.drop_left)
    refine ⟨a :: as, ?_, List.cons_eq_cons.2 ⟨ha, has⟩⟩
    rw [Cursor.advance_advance] at hfirst hmore
    have hlt : (c.advance (2 + l.text.length)).remaining < c.remaining := by
      rw [Cursor.remaining_advance, Cursor.remaining_eq hc, hrest]
      simp only [List.length_cons]
      omega
    rw [outcome_moreElements, if_pos hpeek, hspace, hfirst, ok_bind, if_pos hlt, hmore, ok_bind,
      Cursor.advance_advance, List.flatMap_cons, List.length_append, List.length_cons,
      List.length_cons, Nat.add_comm 2]

/-- Literals in parentheses are read as arguments. -/
theorem argumentList_reads (hclear : constants.SparesBooleans) {ls : List Literal}
    (hls : ∀ l ∈ ls, l.Fits Width.size) :
    (argumentList constants).Reads (Literal.listText ls) v fun as => as.map (·.literal) = ls := by
  have hclose : ∀ as : List WrittenArgument, as.map (·.literal) = ls →
      (do nextSymbol ")"; return as : Parser _).Reads [')'] v fun as => as.map (·.literal) = ls :=
    fun as has => .bind (u := [')']) (w := [])
      (nextSymbol_reads (u := []) (fun _ h => nomatch h) (by decide)) fun _ _ => .pure has
  refine .bind (u := ['(']) (symbol_reads '(') fun _ _ => ?_
  cases ls with
  | nil =>
    refine .bind (u := []) (skipSpace_reads (fun _ h => nomatch h) (Text.stops_cons.2 (by decide)))
      fun _ _ => .here fun c _ hrest => ?_
    have hpeek : c.peek = ")" := by
      rw [Cursor.peek, hrest]
      rfl
    dsimp only
    rw [if_pos hpeek]
    exact .bind (u := []) (.pure (Q := (· = [])) rfl) fun as has => hclose as (by rw [has]; rfl)
  | cons l ls =>
    have hall := List.forall_mem_cons.1 hls
    have htext : Text.join ", " ((l :: ls).map Literal.text) ++ [')'] =
        l.text ++ (ls.flatMap (fun l => ',' :: ' ' :: l.text) ++ [')']) := by
      rw [List.map_cons, Text.join_cons, List.flatMap_map, List.append_assoc]
      rfl
    refine Reads.of_eq
      (u := [] ++ (l.text ++ (ls.flatMap (fun l => ',' :: ' ' :: l.text) ++ [')']))) ?_ htext.symm
    refine .bind (skipSpace_reads (fun _ h => nomatch h)
      (((l.starts_text.append _).append v).stops Literal.not_isSpace)) fun _ _ =>
        .here fun c _ hrest => ?_
    have hpeek : c.peek ≠ ")" := by
      have hstarts := l.starts_text.append
        (ls.flatMap (fun l => ',' :: ' ' :: l.text) ++ [')'] ++ v)
      rw [← List.append_assoc, ← hrest] at hstarts
      exact Cursor.peek_ne_of_starts (m := ')') hstarts (by decide)
    have hstops : Text.Stops isNameChar
        (ls.flatMap (fun l => ',' :: ' ' :: l.text) ++ [')'] ++ v) := by
      cases ls <;> exact Text.stops_cons.2 (by decide)
    dsimp only
    rw [if_neg hpeek]
    exact .bind (writtenArgument_reads hclear hall.1 hstops) fun a ha =>
      .bind (moreElements_reads hclear hall.2) fun as has =>
        .bind (u := []) (.pure (Q := (· = a :: as)) rfl) fun as' has' =>
          hclose as' (by rw [has', List.map_cons, ha, has])

end Parser

/-! ### Items -/

namespace Item

variable {ν : Type} [ItemName ν] {i : Item ν}

/-- An item as it is written: its name, its arguments as literals, and a semicolon. -/
def written (i : Item ν) : Text :=
  ItemName.spelling i.name ++ (Literal.listText i.arguments.literals ++ [';'])

theorem Fits.literals (hi : i.Fits Width.size) :
    ∀ l ∈ i.arguments.literals, l.Fits Width.size :=
  List.forall_mem_map.2 fun a ha => ParameterType.fits_literal (hi.2 a ha)

/-- An item is constructed from the literals that stand for its arguments. -/
theorem construct_of_literals (hi : i.Fits Width.size) {start : Cursor}
    {written : List WrittenArgument} (h : written.map (·.literal) = i.arguments.literals) :
    Item.construct start i.name written = .ok i := by
  have hliterals : written.length = i.arguments.toList.length := by
    simpa [Arguments.literals] using congrArg List.length h
  have hparameters : i.arguments.toList.length = (ItemName.parameters i.name).length := by
    simpa using congrArg List.length hi.1
  rw [construct, if_pos (hliterals.trans hparameters), Arguments.convert_of_literals hi.2 h]
  rfl

theorem starts_written [Spelled ν] (i : Item ν) : i.written.Starts isNameStart :=
  (Spelled.isName i.name).1.append _

end Item

namespace Parser

variable {constants : Table Text Literal} {v : Text}

/-- The text of an item is read as a call of it. -/
theorem itemCall_reads {ν : Type} [ItemName ν] [Spelled ν] {unknown : Problem}
    (hclear : constants.SparesBooleans) {i : Item ν} (hi : i.Fits Width.size) :
    (itemCall ν unknown constants).Reads i.written v (· = i) := by
  refine .here fun start _ _ => .bind (name_reads (Spelled.isName i.name)
    (Text.stops_cons.2 (by decide))) ?_
  rintro _ rfl
  rw [Spelled.ofSpelling?_spelling]
  refine .of_eq (.bind (w := []) (.committed ?_) fun _ h =>
    .bind (u := []) (.note _) fun _ _ => .pure h) (List.append_nil _)
  refine .bind (u := []) (skipSpace_reads (fun _ h => nomatch h) (Text.stops_cons.2 (by decide)))
    fun _ _ => .bind (argumentList_reads hclear hi.literals) fun written hwritten => ?_
  exact .bind (w := []) terminator_reads fun _ _ =>
    .ofExcept (Item.construct_of_literals hi hwritten) rfl

theorem optionalExtractor_reads (hclear : constants.SparesBooleans) {e : Extractor}
    (he : e.Fits Width.size) : (optionalExtractor constants).Reads e.written v (· = e) := by
  refine .of_eq (.bind (w := []) (.optional (itemCall_reads hclear he)) ?_) (List.append_nil _)
  rintro _ ⟨_, rfl, rfl⟩
  exact .pure rfl

end Parser

/-! ### Matchers -/

namespace Matcher

/-- A matcher as it is written: an extractor and a filter in braces, or a connective and its
operands in braces. -/
def written : Matcher → Text
  | single e f => '{' :: ' ' :: (e.written ++ ' ' :: (f.written ++ [' ', '}']))
  | not m => "not" ++ ([' ', '{'] ++ ' ' :: (m.written ++ [' ', '}']))
  | and l r =>
    "and" ++ ([' ', '{'] ++ ' ' :: (l.written ++ ',' :: ' ' :: (r.written ++ [' ', '}'])))
  | or l r =>
    "or" ++ ([' ', '{'] ++ ' ' :: (l.written ++ ',' :: ' ' :: (r.written ++ [' ', '}'])))

/-- The number of levels in which a matcher is nested. -/
def depth : Matcher → Nat
  | single _ _ => 1
  | and l r | or l r => max l.depth r.depth + 1
  | not m => m.depth + 1

theorem starts_written (m : Matcher) : m.written.Starts fun c => !isSpace c := by
  cases m <;> exact Text.starts_cons.2 (by decide)

theorem getLast?_written (m : Matcher) : m.written.getLast? = some '}' := by
  have hbrace : ∀ t : Text, (t ++ [' ', '}']).getLast? = some '}' := fun t =>
    Text.getLast?_append_of_eq rfl
  cases m with
  | single e f =>
    exact Text.getLast?_append_of_eq (t := ['{', ' '])
      (Text.getLast?_append_of_eq (Text.getLast?_cons_of_eq (hbrace _)))
  | not m =>
    exact Text.getLast?_append_of_eq (Text.getLast?_append_of_eq
      (Text.getLast?_cons_of_eq (hbrace _)))
  | and l r | or l r =>
    exact Text.getLast?_append_of_eq (Text.getLast?_append_of_eq (Text.getLast?_cons_of_eq
      (Text.getLast?_append_of_eq (Text.getLast?_append_of_eq (t := [',', ' ']) (hbrace _)))))

end Matcher

/-- The first character of a form. -/
def MatcherForm.initial : MatcherForm → Char
  | event => 'e'
  | producer => 'p'
  | tick => 't'
  | block => '{'
  | negation => 'n'
  | disjunction => 'o'
  | conjunction => 'a'

/-- The forms of a matcher start with different characters. -/
theorem MatcherForm.initial_injective {f g : MatcherForm} (h : f.initial = g.initial) : f = g := by
  cases f <;> cases g <;> first | rfl | exact absurd h (by decide)

theorem MatcherForm.mem_all (f : MatcherForm) : f ∈ all := by
  cases f <;> decide

namespace Parser

variable {constants : Table Text Literal} {v : Text}

theorem closingBrace_reads : (nextSymbol "\x7d").Reads [' ', '}'] v fun _ => True :=
  nextSymbol_reads (u := [' ']) isSpace_of_mem_space (by decide)

theorem openingBrace_reads : (nextSymbol "\x7b").Reads [' ', '{'] v fun _ => True :=
  nextSymbol_reads (u := [' ']) isSpace_of_mem_space (by decide)

/-- One space before what does not start with space. -/
theorem oneSpace_reads {isMember : Char → Bool} {t : Text} (ht : t.Starts isMember)
    (hspace : ∀ c, isMember c → isSpace c = false) (w : Text) :
    skipSpace.Reads [' '] (t ++ w ++ v) fun _ => True :=
  skipSpace_reads isSpace_of_mem_space (((ht.append w).append v).stops hspace)

/-- The text of an extractor and a filter in braces is read as their matcher. -/
theorem blockForm_reads (hclear : constants.SparesBooleans) {e : Extractor} {f : Filter}
    (he : e.Fits Width.size) (hf : f.Fits Width.size) :
    (blockForm constants).Reads (Matcher.single e f).written v (· = .single e f) := by
  refine .bind (u := ['{']) (symbol_reads '{') fun _ _ => .committed ?_
  refine .bind (u := [' ']) (oneSpace_reads e.starts_written not_isSpace_of_isNameStart _)
    fun _ _ => .bind (optionalExtractor_reads hclear he) ?_
  rintro _ rfl
  refine .bind (u := [' ']) (oneSpace_reads f.starts_written not_isSpace_of_isNameStart _)
    fun _ _ => .bind (itemCall_reads hclear hf) ?_
  rintro _ rfl
  exact .bind (w := []) closingBrace_reads fun _ _ => .pure rfl

/-- The text of a negation is read as the negation. -/
theorem unaryForm_reads {inner : Parser Matcher} {m : Matcher}
    (hinner : ∀ v, inner.Reads m.written v (· = m)) :
    (unaryForm inner "not" .not).Reads m.not.written v (· = m.not) := by
  refine .bind (keyword_reads _ (Text.stops_cons.2 (by decide))) fun _ _ => .committed ?_
  refine .bind (openingBrace_reads) fun _ _ =>
    .bind (u := [' ']) (oneSpace_reads m.starts_written (by simp) _) fun _ _ =>
      .bind (hinner _) ?_
  rintro _ rfl
  exact .bind (w := []) closingBrace_reads fun _ _ => .pure rfl

/-- The text of a matcher with two operands is read as the matcher. -/
theorem binaryForm_reads {inner : Parser Matcher} {l r : Matcher} {word : Text}
    {build : Matcher → Matcher → Matcher} (hl : ∀ v, inner.Reads l.written v (· = l))
    (hr : ∀ v, inner.Reads r.written v (· = r)) :
    (binaryForm inner word build).Reads
      (word ++ ([' ', '{'] ++ ' ' :: (l.written ++ ',' :: ' ' :: (r.written ++ [' ', '}'])))) v
      (· = build l r) := by
  refine .bind (keyword_reads _ (Text.stops_cons.2 (by decide))) fun _ _ => .committed ?_
  refine .bind (openingBrace_reads) fun _ _ =>
    .bind (u := [' ']) (oneSpace_reads l.starts_written (by simp) _) fun _ _ => .bind (hl _) ?_
  rintro _ rfl
  refine .bind (u := [',']) (nextSymbol_reads (u := []) (fun _ h => nomatch h) (by decide))
    fun _ _ => .bind (u := [' ']) (oneSpace_reads r.starts_written (by simp) _) fun _ _ =>
      .bind (hr _) ?_
  rintro _ rfl
  exact .bind (w := []) closingBrace_reads fun _ _ => .pure rfl

/-- The form that reads a text is chosen, since all others start with another character. -/
theorem matcherForms_read {inner : Parser Matcher} {u : Text} {Q : Matcher → Prop}
    (form : MatcherForm) (hu : u.Starts (· = form.initial))
    (hform : (matcherForm constants inner form).Reads u v Q) :
    (alt (MatcherForm.all.map (matcherForm constants inner))).Reads u v Q := by
  obtain ⟨before, after, hall, hnew⟩ := List.eq_append_cons_of_mem form.mem_all
  rw [hall]
  refine .alt_map (fun other hother => ?_) hform
  have hne : other ≠ form := fun heq => hnew (heq ▸ hother)
  have hstops : (u ++ v).Stops (· = other.initial) := by
    refine (hu.append v).stops fun c hc => ?_
    rw [decide_eq_true_iff] at hc
    rw [decide_eq_false_iff_not, hc]
    exact fun heq => hne (MatcherForm.initial_injective heq).symm
  cases other with
  | block => exact (symbol_rejects hstops).bind
  | event | producer | tick | negation | disjunction | conjunction =>
    exact (keyword_rejects_of_stops rfl hstops).bind

/-- A written matcher is read back, if there are enough levels for it. -/
theorem matcherIn_reads (hclear : constants.SparesBooleans) {m : Matcher} {levels : Nat}
    (hm : m.Fits Width.size) (hdepth : m.depth ≤ levels) :
    (matcherIn constants MatcherForm.all levels).Reads m.written v (· = m) := by
  -- a matcher takes one level, and its operands are read in the remaining ones
  induction m generalizing levels v with
  | single e f =>
    obtain ⟨k, rfl⟩ := Nat.exists_eq_add_of_le' hdepth
    exact matcherForms_read .block (Text.starts_cons.2 (by decide))
      (blockForm_reads hclear hm.1 hm.2)
  | and l r ihl ihr =>
    obtain ⟨k, rfl⟩ := Nat.exists_eq_add_of_le' (Nat.le_trans (Nat.le_add_left 1 _) hdepth)
    have hk : max l.depth r.depth ≤ k := Nat.le_of_succ_le_succ hdepth
    exact matcherForms_read .conjunction (Text.starts_cons.2 (by decide))
      (binaryForm_reads (fun _ => ihl hm.1 (by omega)) fun _ => ihr hm.2 (by omega))
  | or l r ihl ihr =>
    obtain ⟨k, rfl⟩ := Nat.exists_eq_add_of_le' (Nat.le_trans (Nat.le_add_left 1 _) hdepth)
    have hk : max l.depth r.depth ≤ k := Nat.le_of_succ_le_succ hdepth
    exact matcherForms_read .disjunction (Text.starts_cons.2 (by decide))
      (binaryForm_reads (fun _ => ihl hm.1 (by omega)) fun _ => ihr hm.2 (by omega))
  | not m ih =>
    obtain ⟨k, rfl⟩ := Nat.exists_eq_add_of_le' (Nat.le_trans (Nat.le_add_left 1 _) hdepth)
    have hk : m.depth ≤ k := Nat.le_of_succ_le_succ hdepth
    exact matcherForms_read .negation (Text.starts_cons.2 (by decide))
      (unaryForm_reads fun _ => ih hm hk)

end Parser

end EventRules
