/-
# Texts that show data

The text that shows a datum in a configuration determines it: the widths of integers, the kinds of
values, the components of colours and the schedules can all be told from their texts. A call of an
item can be told from whatever follows it.
-/

import EventRules.Proofs.LiteralReading
import EventRules.Proofs.Spelling

namespace EventRules

variable {limit limit' : Width → Nat}

/-! ### Values -/

theorem isNameChar_of_mem_hexPadded {width n : Nat} {c : Char}
    (h : c ∈ ("0x" ++ Text.hexPadded width n : Text)) : isNameChar c := by
  rcases List.mem_append.1 h with h | h
  · have hall : ∀ c ∈ ("0x" : Text), isNameChar c := by decide
    exact hall c h
  · exact isNameChar_of_contains (.inl rfl)
      (Bool.or_eq_true_iff.2 (.inl (Text.isHexDigit_of_mem_hexPadded h)))

/-- A number is written in hexadecimal digits of a fixed width, with its type behind a tilde. -/
theorem Width.padded_eq (w : Width) (n : Nat) :
    w.padded n = ("0x" ++ Text.hexPadded (w.bits / 4) n) ++ '~' :: w.name :=
  List.append_assoc ..

/-- An integer and its width are told from the text with all digits. -/
theorem Width.padded_injective {v w : Width} {m n : Nat} (h : v.padded m = w.padded n) :
    v = w ∧ m = n := by
  have htilde : ∀ width n : Nat, Text.Lacks '~' ("0x" ++ Text.hexPadded width n) :=
    fun _ _ hmem => absurd (isNameChar_of_mem_hexPadded hmem) (by decide)
  rw [padded_eq, padded_eq] at h
  obtain ⟨hdigits, hname⟩ := Text.append_cons_inj (htilde _ _) (htilde _ _) h
  obtain rfl : v = w := by
    have hread := congrArg ofName? hname
    rw [ofName?_name, ofName?_name] at hread
    exact Option.some.inj hread
  exact ⟨rfl, Text.hexPadded_injective (List.append_cancel_left hdigits)⟩

/-- Colours with the same text are the same. -/
theorem Colour.text_injective {c d : Colour} (hc : c.Fits) (hd : d.Fits) (h : c.text = d.text) :
    c = d := by
  have hbytes := congrArg LiteralForm.bytes? (List.append_cancel_left h)
  rw [LiteralForm.bytes?_flatMap hc, LiteralForm.bytes?_flatMap hd] at hbytes
  have hcomponents := congrArg ofComponents? (Option.some.inj hbytes)
  rwa [ofComponents?_components, ofComponents?_components, Option.some.injEq] at hcomponents

theorem Text.ofBool_injective {b b' : Bool} (h : ofBool b = ofBool b') : b = b' := by
  cases b <;> cases b' <;> first | rfl | exact absurd h (by decide)

/-- The kind of a value is told from the first character of its text, a zero, a letter or a hash,
and the value from the rest. -/
theorem Value.text_injective {v w : Value} (hv : v.Fits limit) (hw : w.Fits limit')
    (h : v.text = w.text) : v = w := by
  have hbool : ∀ (b : Bool) (t : Text), Text.ofBool b ≠ '0' :: t ∧ Text.ofBool b ≠ '#' :: t := by
    intro b t
    cases b <;> exact ⟨fun h => absurd (List.cons.inj h).1 (by decide),
      fun h => absurd (List.cons.inj h).1 (by decide)⟩
  cases v with
  | int width m =>
    cases w with
    | int width' n =>
      obtain ⟨rfl, rfl⟩ := Width.padded_injective h
      rfl
    | bool b => exact absurd h.symm (hbool b _).1
    | colour d => exact absurd (List.cons.inj h).1 (by decide)
  | bool b =>
    cases w with
    | int width n => exact absurd h (hbool b _).1
    | bool b' => rw [Text.ofBool_injective h]
    | colour d => exact absurd h (hbool b _).2
  | colour c =>
    cases w with
    | int width n => exact absurd (List.cons.inj h).1 (by decide)
    | bool b => exact absurd h.symm (hbool b _).2
    | colour d => rw [Colour.text_injective hv hw h]

/-- A payload as a value. -/
def MessageValue.toValue : MessageValue → Value
  | int width n => .int width n
  | bool b => .bool b

theorem MessageValue.text_toValue (v : MessageValue) : v.toValue.text = v.text := by
  cases v <;> rfl

/-- A brightness as a value. -/
def BcmValue.toValue : BcmValue → Value
  | single n => .int .u8 n
  | colour c => .colour c

theorem BcmValue.text_toValue (v : BcmValue) : v.toValue.text = v.text := by
  cases v <;> rfl

theorem MessageValue.text_injective {v w : MessageValue} (hv : v.Fits limit) (hw : w.Fits limit')
    (h : v.text = w.text) : v = w := by
  have hfits : ∀ {limit : Width → Nat} {v : MessageValue}, v.Fits limit → v.toValue.Fits limit := by
    intro limit v hv
    cases v <;> exact hv
  rw [← text_toValue, ← text_toValue] at h
  have hvalue := Value.text_injective (hfits hv) (hfits hw) h
  cases v <;> cases w <;> simp_all [toValue]

theorem BcmValue.text_injective {v w : BcmValue} (hv : v.Fits limit) (hw : w.Fits limit')
    (h : v.text = w.text) : v = w := by
  have hfits : ∀ {limit : Width → Nat} {v : BcmValue}, v.Fits limit → v.toValue.Fits limit := by
    intro limit v hv
    cases v <;> exact hv
  rw [← text_toValue, ← text_toValue] at h
  have hvalue := Value.text_injective (hfits hv) (hfits hw) h
  cases v <;> cases w <;> simp_all [toValue]

theorem RelayValue.text_injective {v w : RelayValue} (h : v.text = w.text) : v = w := by
  have hword : ∀ s : RelayPair, RelayPair.ofWord? s.word = some s := by
    intro s
    cases s <;> rfl
  cases v with
  | single b =>
    cases w with
    | single b' => rw [Text.ofBool_injective h]
    | pair s => cases b <;> exact absurd (List.cons.inj h).1 (by decide)
  | pair s =>
    cases w with
    | single b => cases b <;> exact absurd (List.cons.inj h).1 (by decide)
    | pair s' =>
      have hwords := List.append_cancel_left (List.append_cancel_right h)
      have hread := congrArg RelayPair.ofWord? hwords
      rw [hword, hword] at hread
      rw [Option.some.inj hread]

/-! ### Arguments -/

namespace ParameterType

/-- Each argument is told from its text. -/
theorem argumentText_injective {p : ParameterType} {a b : p.Argument} (ha : p.Fits limit a)
    (hb : p.Fits limit' b) (h : p.argumentText a = p.argumentText b) : a = b := by
  cases p with
  | u8 | u16 | u32 => exact Text.decimal_injective h
  | address => exact Text.hexPadded_injective (List.append_cancel_left h)
  | bool => exact Text.ofBool_injective h
  | value => exact Value.text_injective ha hb h
  | messageValue => exact MessageValue.text_injective ha hb h
  | bcmValue => exact BcmValue.text_injective ha hb h
  | relayValue => exact RelayValue.text_injective h
  | cron =>
    have hread : Cron.read (Cron.text a) = Cron.read (Cron.text b) := congrArg Cron.read h
    rw [Cron.read_text ha, Cron.read_text hb] at hread
    exact Except.ok.inj hread

/-- The characters that occur in texts of arguments. Commas and spaces occur in schedules only. -/
def isShown (p : ParameterType) (c : Char) : Bool :=
  isNameChar c || c = '~' || c = '#' || c = '"' || (p = .cron && (c = '*' || c = ',' || c = ' '))

variable {p : ParameterType} {c : Char}

theorem isShown_of_isNameChar (h : isNameChar c) : p.isShown c := by
  simp [isShown, h]

theorem isShown_of_mem_ofBool {b : Bool} (h : c ∈ Text.ofBool b) : p.isShown c := by
  have hname : ∀ c ∈ Text.ofBool b, isNameChar c := by
    cases b <;> decide
  exact isShown_of_isNameChar (hname c h)

theorem isShown_of_mem_value {v : Value} (h : c ∈ v.text) : p.isShown c := by
  cases v with
  | int width n =>
    have hname : ∀ c ∈ width.name, isNameChar c := by
      cases width <;> decide
    rw [Value.text, Width.padded_eq, List.mem_append, List.mem_cons] at h
    rcases h with h | rfl | h
    · exact isShown_of_isNameChar (isNameChar_of_mem_hexPadded h)
    · simp [isShown]
    · exact isShown_of_isNameChar (hname c h)
  | bool b => exact isShown_of_mem_ofBool h
  | colour d =>
    obtain h | h : c = '#' ∨ c ∈ d.components.flatMap (Text.hexPadded 2) := List.mem_cons.1 h
    · simp [isShown, h]
    · obtain ⟨n, -, h⟩ := List.mem_flatMap.1 h
      exact isShown_of_isNameChar (isNameChar_of_mem_hexPadded (List.mem_append_right _ h))

/-- A text of an argument has only characters that its type shows. -/
theorem isShown_of_mem {a : p.Argument} (h : c ∈ p.argumentText a) : p.isShown c := by
  cases p with
  | u8 | u16 | u32 =>
    exact isShown_of_isNameChar (isNameChar_of_isDigit (Text.isDigit_of_mem_decimal h))
  | address => exact isShown_of_isNameChar (isNameChar_of_mem_hexPadded h)
  | bool => exact isShown_of_mem_ofBool h
  | value => exact isShown_of_mem_value h
  | messageValue =>
    apply isShown_of_mem_value (v := MessageValue.toValue a)
    rwa [MessageValue.text_toValue]
  | bcmValue =>
    apply isShown_of_mem_value (v := BcmValue.toValue a)
    rwa [BcmValue.text_toValue]
  | relayValue =>
    cases a with
    | single b => exact isShown_of_mem_ofBool h
    | pair s =>
      have hshown : ∀ c ∈ (RelayValue.pair s).text, relayValue.isShown c := by
        cases s <;> decide
      exact hshown c h
  | cron =>
    obtain h | ⟨t, ht, h⟩ := Text.mem_join h
    · rw [List.mem_singleton.1 h]
      decide
    · obtain ⟨f, -, rfl⟩ := List.mem_map.1 ht
      rcases CronField.mem_text h with hdigit | rfl | rfl
      · exact isShown_of_isNameChar (isNameChar_of_isDigit hdigit)
      · decide
      · decide

end ParameterType

namespace Arguments

variable {ps : List ParameterType}

/-- A mark that no type shows is in no text of an argument. -/
theorem lacks_texts {mark : Char} (h : ∀ p ∈ ps, p.isShown mark = false) (as : Arguments ps) :
    ∀ t ∈ as.texts, Text.Lacks mark t := by
  induction as with
  | nil => exact fun _ h => nomatch h
  | cons a as ih =>
    rw [List.forall_mem_cons] at h
    refine List.forall_mem_cons.2 ⟨fun hmem => ?_, ih h.2⟩
    exact absurd (ParameterType.isShown_of_mem hmem) (by simp [h.1])

/-- Arguments with the same texts are the same. -/
theorem texts_injective {as bs : Arguments ps} (has : ∀ a ∈ as.toList, a.1.Fits limit a.2)
    (hbs : ∀ b ∈ bs.toList, b.1.Fits limit' b.2) (h : as.texts = bs.texts) : as = bs := by
  induction as with
  | nil =>
    cases bs
    rfl
  | cons a as ih =>
    obtain _ | ⟨b, bs⟩ := bs
    obtain ⟨hfirst, hrest⟩ := List.cons.inj h
    simp only [toList, List.forall_mem_cons] at has hbs
    rw [ParameterType.argumentText_injective has.1 hbs.1 hfirst, ih has.2 hbs.2 hrest]

/-- Parameters whose arguments can be told apart in a list: only a schedule holds commas, and it is
alone. -/
def Separable (ps : List ParameterType) : Prop :=
  ps.length ≤ 1 ∨ .cron ∉ ps

instance (ps : List ParameterType) : Decidable (Separable ps) :=
  inferInstanceAs (Decidable (ps.length ≤ 1 ∨ .cron ∉ ps))

/-- The texts of the arguments are found again between the separators, which none of them holds. -/
theorem texts_of_join_eq {as bs : Arguments ps} (hps : Separable ps)
    (h : Text.join ", " as.texts = Text.join ", " bs.texts) : as.texts = bs.texts := by
  by_cases hcron : .cron ∈ ps
  · -- the texts of a schedule may hold the separator, but there is nothing to separate
    have hlength : ps.length ≤ 1 := hps.resolve_right (not_not_intro hcron)
    cases as with
    | nil => exact nomatch hcron
    | cons a as =>
      obtain _ | ⟨b, bs⟩ := bs
      cases as with
      | nil =>
        cases bs
        simpa [texts] using h
      | cons => simp at hlength
  · have hcomma : ∀ p ∈ ps, p.isShown ',' = false := by
      intro p hp
      cases p with
      | cron => exact absurd hp hcron
      | _ => decide
    cases as with
    | nil =>
      cases bs
      rfl
    | cons a as =>
      obtain _ | ⟨b, bs⟩ := bs
      exact Text.join_injective (List.cons_ne_nil _ _) (List.cons_ne_nil _ _)
        (lacks_texts hcomma _) (lacks_texts hcomma _) h

end Arguments

/-! ### Calls -/

namespace Item

variable {ν : Type} [ItemName ν] {i j : Item ν} {rest rest' : Text}

/-- An item is written as its name and its arguments in parentheses. -/
theorem text_append (i : Item ν) (rest : Text) :
    i.text ++ rest =
      ItemName.spelling i.name ++ '(' :: (Text.join ", " i.arguments.texts ++ ')' :: rest) := by
  rw [text, List.append_assoc, List.append_assoc, List.append_assoc]
  rfl

theorem lacks_text {mark : Char} (hname : (ItemName.spelling i.name).IsName)
    (hmark : ∀ p : ParameterType, p.isShown mark = false) (hplain : isNameChar mark = false)
    (hpunctuation : mark ∉ [',', ' ', '(', ')']) : Text.Lacks mark i.text := by
  simp only [List.mem_cons, List.not_mem_nil, or_false, not_or] at hpunctuation
  obtain ⟨hcomma, hspace, hopen, hclose⟩ := hpunctuation
  have hspelling : Text.Lacks mark (ItemName.spelling i.name) := fun hmem => by
    simp [hname.2 mark hmem] at hplain
  have hseparator : Text.Lacks mark [',', ' '] := by simp [Text.Lacks, hcomma, hspace]
  have hjoin : Text.Lacks mark (Text.join ", " i.arguments.texts) :=
    .join hseparator (i.arguments.lacks_texts fun p _ => hmark p)
  rw [← List.append_nil i.text, text_append]
  have hrest : Text.Lacks mark (Text.join ", " i.arguments.texts ++ ')' :: []) :=
    hjoin.append (.cons (Ne.symm hclose) List.not_mem_nil)
  exact hspelling.append (.cons (Ne.symm hopen) hrest)

/-- A call and what follows it are told from the text, if its name is told from its spelling. -/
theorem eq_of_text_append_eq (hi : i.Fits limit) (hj : j.Fits limit')
    (hiname : (ItemName.spelling i.name).IsName) (hjname : (ItemName.spelling j.name).IsName)
    (hps : Arguments.Separable (ItemName.parameters i.name))
    (hname : ItemName.spelling i.name = ItemName.spelling j.name → i.name = j.name)
    (h : i.text ++ rest = j.text ++ rest') : i = j ∧ rest = rest' := by
  have hopen : ∀ {t : Text}, t.IsName → Text.Lacks '(' t := fun ht hmem =>
    absurd (ht.2 _ hmem) (by decide)
  have hclose : ∀ {ps : List ParameterType} (as : Arguments ps),
      Text.Lacks ')' (Text.join ", " as.texts) := fun as =>
    .join (by decide) (as.lacks_texts fun p _ => by cases p <;> rfl)
  rw [text_append, text_append] at h
  obtain ⟨hspelling, h⟩ := Text.append_cons_inj (hopen hiname) (hopen hjname) h
  obtain ⟨hjoin, rfl⟩ := Text.append_cons_inj (hclose _) (hclose _) h
  obtain ⟨m, as⟩ := i
  obtain ⟨n, bs⟩ := j
  -- only now do both lists of arguments have the same type
  obtain rfl : m = n := hname hspelling
  obtain rfl : as = bs :=
    Arguments.texts_injective hi.2 hj.2 (Arguments.texts_of_join_eq hps hjoin)
  exact ⟨rfl, rfl⟩

/-- An item and what follows it are found again in the text of both. -/
theorem text_append_inj [Spelled ν] (hps : ∀ n : ν, Arguments.Separable (ItemName.parameters n))
    (hi : i.Fits limit) (hj : j.Fits limit') (h : i.text ++ rest = j.text ++ rest') :
    i = j ∧ rest = rest' := by
  apply eq_of_text_append_eq hi hj (Spelled.isName _) (Spelled.isName _) (hps _) _ h
  intro hspelling
  have hfound := congrArg (ItemName.ofSpelling? ν) hspelling
  rwa [Spelled.ofSpelling?_spelling, Spelled.ofSpelling?_spelling, Option.some.injEq] at hfound

end Item

/-! ### Peripherals -/

/-- A shape is told from its text, because the family comes first: a single output and a single
relay are spelled alike. -/
theorem Shape.describe_append_inj {s s' : Shape} {rest rest' : Text} (hs : s.Fits limit)
    (hs' : s'.Fits limit') (h : s.describe ++ rest = s'.describe ++ rest') :
    s = s' ∧ rest = rest' := by
  have hcut : ∀ (s : Shape) (rest : Text),
      s.describe ++ rest = s.name.family.keyword ++ ' ' :: (s.text ++ rest) := by
    intro s rest
    rw [describe, List.append_assoc, List.append_assoc]
    rfl
  have hspace : ∀ f : Family, Text.Lacks ' ' f.keyword := by
    intro f
    cases f <;> decide
  rw [hcut, hcut] at h
  obtain ⟨hkeyword, h⟩ := Text.append_cons_inj (hspace _) (hspace _) h
  have hfamily : s.name.family = s'.name.family := by
    have hfound := s.name.family.ofKeyword?_keyword
    rw [hkeyword, s'.name.family.ofKeyword?_keyword] at hfound
    exact (Option.some.inj hfound).symm
  apply Item.eq_of_text_append_eq hs hs' s.name.isName_spelling s'.name.isName_spelling _ _ h
  · cases s.name <;> decide
  · intro hspelling
    have hfound := Family.shape?_spelling s.name.mem_shapes
    rw [hspelling, hfamily, Family.shape?_spelling s'.name.mem_shapes] at hfound
    exact (Option.some.inj hfound).symm

namespace Peripheral

/-- The addresses of gateways as they are listed. -/
def addresses (gateways : List Nat) : Text :=
  Text.join ", " (gateways.map fun address => "0x" ++ Text.hexPadded 4 address)

/-- The text about the gateways of a peripheral, if it has any. -/
def gatewayNote (gateways : List Nat) : Text :=
  if gateways.isEmpty then [] else " pub(" ++ addresses gateways ++ ")"

theorem text_eq (p : Peripheral) : p.text = p.shape.describe ++ gatewayNote p.gateways := by
  rw [text, gatewayNote]
  split
  · rw [List.append_nil]
  · simp only [addresses, List.append_assoc]

theorem lacks_address {mark : Char} (h : isNameChar mark = false) (gateways : List Nat) :
    ∀ t ∈ gateways.map fun address => "0x" ++ Text.hexPadded 4 address, Text.Lacks mark t := by
  refine List.forall_mem_map.2 fun address _ hmem => ?_
  simp [isNameChar_of_mem_hexPadded hmem] at h

/-- The note on gateways tells their addresses. -/
theorem gatewayNote_injective {gs gs' : List Nat} (h : gatewayNote gs = gatewayNote gs') :
    gs = gs' := by
  cases gs with
  | nil =>
    cases gs' with
    | nil => rfl
    | cons g gs' => cases h
  | cons g gs =>
    cases gs' with
    | nil => cases h
    | cons g' gs' =>
      have hjoin := List.append_cancel_left (List.append_cancel_right h)
      have hmap : List.map _ (g :: gs) = List.map _ (g' :: gs') :=
        Text.join_injective (List.cons_ne_nil _ _) (List.cons_ne_nil _ _)
          (lacks_address (by decide) (g :: gs)) (lacks_address (by decide) (g' :: gs')) hjoin
      refine List.map_injective_iff.2 (fun m n heq => ?_) hmap
      exact Text.hexPadded_injective (List.append_cancel_left heq)

/-- A peripheral is told from its text. -/
theorem text_injective {p q : Peripheral} (hp : p.Fits limit) (hq : q.Fits limit')
    (h : p.text = q.text) : p = q := by
  rw [text_eq, text_eq] at h
  obtain ⟨hshape, hgateways⟩ := Shape.describe_append_inj hp.1 hq.1 h
  obtain ⟨s, gs⟩ := p
  obtain ⟨s', gs'⟩ := q
  rw [Peripheral.mk.injEq]
  exact ⟨hshape, gatewayNote_injective hgateways⟩

end Peripheral

/-! ### Texts on one line -/

/-- The text is on one line. -/
abbrev Text.OneLine (t : Text) : Prop :=
  t.Lacks '\n'

theorem Item.oneLine_text {ν : Type} [ItemName ν] {i : Item ν}
    (hname : (ItemName.spelling i.name).IsName) : i.text.OneLine :=
  lacks_text hname (fun p => by cases p <;> rfl) (by decide) (by decide)

theorem Value.oneLine_text (v : Value) : v.text.OneLine := by
  intro hmem
  exact absurd (ParameterType.isShown_of_mem (p := .value) hmem) (by decide)

theorem Peripheral.oneLine_text (p : Peripheral) : p.text.OneLine := by
  have haddresses : Text.OneLine (addresses p.gateways) :=
    .join (by decide) (lacks_address (by decide) _)
  have hnote : Text.OneLine (gatewayNote p.gateways) := by
    rw [gatewayNote]
    split
    · exact List.not_mem_nil
    · exact .append (.append (by decide) haddresses) (by decide)
  have hkeyword : p.shape.name.family.keyword.OneLine := by
    cases p.shape.name.family <;> decide
  rw [text_eq]
  exact .append (.append (.append hkeyword (by decide))
    (Item.oneLine_text p.shape.name.isName_spelling)) hnote

end EventRules
