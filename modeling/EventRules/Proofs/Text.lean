/-
# Texts taken apart

Cutting a text at marks undoes putting it together from pieces without the mark, and the indentation
of lines tells which of them belong to a heading.
-/

import EventRules.Text.Blank
import Mathlib.Data.List.Infix
import Mathlib.Tactic.Common

namespace EventRules

namespace Text

/-- What holds of all characters of a text is decided by going through the text, not by going
through all characters there are. -/
instance decidableForallMem (p : Char → Prop) [DecidablePred p] (t : Text) :
    Decidable (∀ c ∈ t, p c) :=
  List.decidableBAll p t

/-! ### Characters that do not occur -/

/-- The character does not occur in the text. -/
def Lacks (mark : Char) (t : Text) : Prop :=
  mark ∉ t

instance (mark : Char) (t : Text) : Decidable (Lacks mark t) :=
  inferInstanceAs (Decidable (mark ∉ t))

namespace Lacks

variable {mark : Char} {t u : Text}

theorem append (ht : Lacks mark t) (hu : Lacks mark u) : Lacks mark (t ++ u) := by
  intro h
  exact (List.mem_append.1 h).elim ht hu

theorem cons {c : Char} (hc : c ≠ mark) (ht : Lacks mark t) : Lacks mark (c :: t) := by
  intro h
  exact (List.mem_cons.1 h).elim (fun heq => hc heq.symm) ht

theorem flatMap {α : Type} {as : List α} {f : α → Text} (h : ∀ a ∈ as, Lacks mark (f a)) :
    Lacks mark (as.flatMap f) := by
  intro hmem
  obtain ⟨a, ha, hmark⟩ := List.mem_flatMap.1 hmem
  exact h a ha hmark

/-- A character that occurs neither in the parts nor between them does not occur. -/
theorem join {separator : Text} {parts : List Text} (hsep : Lacks mark separator)
    (h : ∀ t ∈ parts, Lacks mark t) : Lacks mark (Text.join separator parts) := by
  induction parts with
  | nil => exact List.not_mem_nil
  | cons t parts ih =>
    rw [List.forall_mem_cons] at h
    cases parts with
    | nil => simpa [Text.join] using h.1
    | cons u parts =>
      rw [Text.join, List.intercalate_cons_cons]
      exact .append (.append h.1 hsep) (ih h.2)

end Lacks

/-! ### Cutting at a mark -/

/-- What lies before the first mark is free of it, and the mark follows. -/
theorem before?_eq_some_iff {mark : Char} {t u : Text} :
    before? [mark] t = some u ↔ mark ∉ u ∧ u ++ [mark] <+: t := by
  induction t generalizing u with
  | nil => simp [before?]
  | cons c t ih =>
    rw [before?]
    by_cases hc : mark = c
    · subst hc
      have hprefix : List.isPrefixOf [mark] (mark :: t) := by simp
      rw [if_pos hprefix]
      constructor
      · intro h
        cases h
        exact ⟨List.not_mem_nil, by simp⟩
      · rintro ⟨hmem, v, hv⟩
        cases u with
        | nil => rfl
        | cons a u =>
          have ha : a = mark := (List.cons.inj hv).1
          exact absurd (ha ▸ List.mem_cons_self ..) hmem
    · have hprefix : ¬ List.isPrefixOf [mark] (c :: t) := by simp [hc]
      rw [if_neg hprefix, Option.map_eq_some_iff]
      constructor
      · rintro ⟨v, hv, rfl⟩
        obtain ⟨hmem, hpre⟩ := ih.1 hv
        refine ⟨fun h => ?_, List.cons_prefix_cons.2 ⟨rfl, hpre⟩⟩
        rcases List.mem_cons.1 h with h | h
        · exact hc h
        · exact hmem h
      · rintro ⟨hmem, hpre⟩
        cases u with
        | nil => exact absurd (List.cons_prefix_cons.1 hpre).1 hc
        | cons a u =>
          obtain ⟨rfl, htail⟩ := List.cons_prefix_cons.1 hpre
          exact ⟨u, ih.2 ⟨fun h => hmem (List.mem_cons_of_mem _ h), htail⟩, rfl⟩

theorem cut?_eq_none {mark : Char} {t : Text} (h : mark ∉ t) : cut? mark t = none := by
  induction t with
  | nil => rfl
  | cons c t ih =>
    rw [List.mem_cons, not_or] at h
    rw [cut?, if_neg (Ne.symm h.1), ih h.2]
    rfl

/-- The first mark cuts a text in two. -/
theorem cut?_append_cons {mark : Char} {t : Text} (h : mark ∉ t) (u : Text) :
    cut? mark (t ++ mark :: u) = some (t, u) := by
  induction t with
  | nil => rw [List.nil_append, cut?, if_pos rfl]
  | cons c t ih =>
    rw [List.mem_cons, not_or] at h
    rw [List.cons_append, cut?, if_neg (Ne.symm h.1), ih h.2]
    rfl

/-- The texts on both sides of the first mark are determined by the whole. -/
theorem append_cons_inj {mark : Char} {t t' u u' : Text} (h : mark ∉ t) (h' : mark ∉ t')
    (heq : t ++ mark :: u = t' ++ mark :: u') : t = t' ∧ u = u' := by
  have hcut := congrArg (cut? mark) heq
  rw [cut?_append_cons h, cut?_append_cons h'] at hcut
  exact Prod.mk.inj (Option.some.inj hcut)

/-! ### Pieces between marks -/

section Pieces

variable {isMark : Char → Bool} {mark : Char}

@[simp]
theorem join_singleton (separator t : Text) : join separator [t] = t :=
  List.intercalate_singleton

theorem join_cons_cons (separator t u : Text) (parts : List Text) :
    join separator (t :: u :: parts) = t ++ (separator ++ join separator (u :: parts)) := by
  rw [join, List.intercalate_cons_cons, List.append_assoc]
  rfl

/-- Further parts stand behind a separator each. -/
theorem join_cons (separator t : Text) (parts : List Text) :
    join separator (t :: parts) = t ++ parts.flatMap (separator ++ ·) := by
  induction parts generalizing t with
  | nil => rw [join_singleton, List.flatMap_nil, List.append_nil]
  | cons u parts ih => rw [join_cons_cons, ih, List.flatMap_cons, List.append_assoc]

theorem mem_join {separator : Text} {parts : List Text} {c : Char} (h : c ∈ join separator parts) :
    c ∈ separator ∨ ∃ t ∈ parts, c ∈ t := by
  induction parts with
  | nil => exact nomatch h
  | cons t parts ih =>
    cases parts with
    | nil =>
      rw [join_singleton] at h
      exact .inr ⟨t, List.mem_cons_self .., h⟩
    | cons u parts =>
      rw [join_cons_cons, List.mem_append, List.mem_append] at h
      rcases h with h | h | h
      · exact .inr ⟨t, List.mem_cons_self .., h⟩
      · exact .inl h
      · obtain hsep | ⟨v, hv, hc⟩ := ih h
        · exact .inl hsep
        · exact .inr ⟨v, List.mem_cons_of_mem _ hv, hc⟩

/-- A text without marks is one piece. -/
theorem splitWhere_eq_singleton {t : Text} (h : ∀ c ∈ t, ¬ isMark c) :
    splitWhere isMark t = [t] := by
  induction t with
  | nil => rfl
  | cons c t ih =>
    rw [List.forall_mem_cons] at h
    rw [splitWhere, if_neg h.1, ih h.2]

/-- The first mark ends the first piece. -/
theorem splitWhere_append_cons {t u : Text} (h : ∀ c ∈ t, ¬ isMark c) (hmark : isMark mark) :
    splitWhere isMark (t ++ mark :: u) = t :: splitWhere isMark u := by
  induction t with
  | nil => rw [List.nil_append, splitWhere, if_pos hmark]
  | cons c t ih =>
    rw [List.forall_mem_cons] at h
    rw [List.cons_append, splitWhere, if_neg h.1, ih h.2]

/-- Pieces put together with marks between them are the pieces between the marks. -/
theorem splitWhere_join (hmark : isMark mark) {parts : List Text} (hne : parts ≠ [])
    (h : ∀ t ∈ parts, ∀ c ∈ t, ¬ isMark c) : splitWhere isMark (join [mark] parts) = parts := by
  induction parts with
  | nil => exact absurd rfl hne
  | cons t parts ih =>
    rw [List.forall_mem_cons] at h
    cases parts with
    | nil => rw [join_singleton, splitWhere_eq_singleton h.1]
    | cons u parts =>
      rw [join_cons_cons, List.singleton_append, splitWhere_append_cons h.1 hmark,
        ih (List.cons_ne_nil _ _) h.2]

/-- The pieces between marks, with the marks between them, are the text. -/
theorem join_splitWhere (mark : Char) (t : Text) : join [mark] (t.splitWhere (· = mark)) = t := by
  induction t with
  | nil => rfl
  | cons c t ih =>
    obtain ⟨piece, pieces, hpieces⟩ :=
      List.exists_cons_of_ne_nil (splitWhere_ne_nil (· = mark) t)
    rw [splitWhere]
    split
    · next hc =>
      rw [hpieces, join_cons_cons, ← hpieces, ih, of_decide_eq_true hc]
      rfl
    · rw [hpieces]
      dsimp only
      rw [join_cons, List.cons_append, ← join_cons, ← hpieces, ih]

/-- Non-empty texts without white space are the words of their sequence. -/
theorem words_join (hmark : isBlank mark) {parts : List Text} (hne : parts ≠ [])
    (hfull : ∀ t ∈ parts, t ≠ []) (h : ∀ t ∈ parts, ∀ c ∈ t, ¬ isBlank c) :
    words (join [mark] parts) = parts := by
  rw [words, splitWhere_join hmark hne h, List.filter_eq_self]
  intro t ht
  simpa using hfull t ht

/-- Pieces without the mark are determined by their sequence, when each separator starts with the
mark. -/
theorem join_injective {separator : Text} {parts parts' : List Text} (hne : parts ≠ [])
    (hne' : parts' ≠ []) (h : ∀ t ∈ parts, Lacks mark t) (h' : ∀ t ∈ parts', Lacks mark t)
    (heq : join (mark :: separator) parts = join (mark :: separator) parts') : parts = parts' := by
  induction parts generalizing parts' with
  | nil => exact absurd rfl hne
  | cons t parts ih =>
    obtain ⟨t', parts', rfl⟩ := List.exists_cons_of_ne_nil hne'
    rw [List.forall_mem_cons] at h h'
    cases parts with
    | nil =>
      cases parts' with
      | nil => simpa using heq
      | cons u' parts' =>
        rw [join_singleton, join_cons_cons] at heq
        exact absurd (heq ▸ by simp) h.1
    | cons u parts =>
      cases parts' with
      | nil =>
        rw [join_singleton, join_cons_cons] at heq
        exact absurd (heq ▸ by simp) h'.1
      | cons u' parts' =>
        rw [join_cons_cons, join_cons_cons] at heq
        obtain ⟨rfl, hrest⟩ := append_cons_inj h.1 h'.1 heq
        rw [ih (by simp) (by simp) h.2 h'.2 (List.append_cancel_left hrest)]

end Pieces

/-! ### Outlines -/

section Outline

variable {lines rest rest' : List Text} {line : Text}

/-- The lines do not start with one that is indented. -/
def Flush (lines : List Text) : Prop :=
  ∀ line ∈ lines.head?, line.head? ≠ some ' '

theorem flush_nil : Flush [] :=
  fun _ h => nomatch h

theorem flush_cons : Flush (line :: lines) ↔ line.head? ≠ some ' ' := by
  simp [Flush]

/-- Indentation can be undone. -/
theorem indent_injective {body body' : List Text} (h : indent body = indent body') :
    body = body' :=
  List.map_injective_iff.2 (fun _ _ heq => List.append_cancel_left heq) h

/-- Indentation ends where the lines are flush again. -/
theorem indent_append_inj {body body' : List Text} (hrest : Flush rest) (hrest' : Flush rest')
    (h : indent body ++ rest = indent body' ++ rest') : body = body' ∧ rest = rest' := by
  have hindented (t : Text) (body rest : List Text) : ¬ Flush (indent (t :: body) ++ rest) :=
    fun hflush => flush_cons.1 hflush rfl
  induction body generalizing body' with
  | nil =>
    cases body' with
    | nil => exact ⟨rfl, h⟩
    | cons t body' => exact absurd (h ▸ hrest) (hindented t body' rest')
  | cons t body ih =>
    cases body' with
    | nil => exact absurd (h.symm ▸ hrest') (hindented t body rest)
    | cons t' body' =>
      obtain ⟨hline, hlines⟩ := List.cons.inj h
      obtain ⟨rfl, rfl⟩ := ih hlines
      exact ⟨congrArg (· :: body) (List.append_cancel_left hline), rfl⟩

/-- A heading, what is below it and what comes after it are determined by the lines. -/
theorem heading_append_inj {title title' : Text} {body body' : List Text} (hrest : Flush rest)
    (hrest' : Flush rest') (h : heading title body ++ rest = heading title' body' ++ rest') :
    title = title' ∧ body = body' ∧ rest = rest' := by
  obtain ⟨htitle, hlines⟩ := List.cons.inj h
  exact ⟨htitle, indent_append_inj hrest hrest' hlines⟩

/-- A title and the lines below it are found again. -/
theorem heading_inj {title title' : Text} {body body' : List Text}
    (h : heading title body = heading title' body') : title = title' ∧ body = body' :=
  (List.cons.inj h).imp_right indent_injective

theorem lacks_of_mem_heading {mark : Char} {title : Text} {body : List Text} (hspace : mark ≠ ' ')
    (htitle : Lacks mark title) (hbody : ∀ t ∈ body, Lacks mark t) :
    ∀ t ∈ heading title body, Lacks mark t := by
  refine List.forall_mem_cons.2 ⟨htitle, List.forall_mem_map.2 fun t ht => ?_⟩
  have hindent : Lacks mark [' ', ' '] := by simp [Lacks, hspace]
  exact hindent.append (hbody t ht)

end Outline

end Text

end EventRules
