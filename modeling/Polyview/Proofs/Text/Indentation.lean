import Mathlib.Data.List.Infix
import Polyview.Text.Indentation

/-! # Text in lines

Indenting a text moves its lines. So a piece of the text on one line stands in the indented text as well, unless it is
blank, or ends in a carriage return, which may be part of a line break (`isInfix_indent`). -/

namespace Polyview.Text

open List

/-- A piece of a text on one line, that stays when the line is moved. -/
structure OneLine (piece : List Char) : Prop where
  noBreak : '\n' ∉ piece
  ink : ∃ c ∈ piece, isBlank c = false
  noReturn : piece.getLast? ≠ some '\r'

variable {piece part text : List Char}

/-! ### Lines -/

theorem splitFrom_append {isSeparator : Char → Bool} (h : ∀ c ∈ piece, isSeparator c = false) (lead : List Char) :
    splitFrom isSeparator lead (piece ++ text) = splitFrom isSeparator (piece.reverse ++ lead) text := by
  induction piece generalizing lead with
  | nil => rfl
  | cons c piece ih =>
    rw [cons_append, splitFrom, h c (.head _), if_neg (by simp), ih fun d hd => h d (.tail _ hd)]
    simp

/-- What precedes a text goes into its first piece. -/
theorem exists_splitFrom (isSeparator : Char → Bool) (lead text : List Char) :
    ∃ first rest, splitFrom isSeparator lead text = (lead.reverse ++ first) :: rest := by
  induction text generalizing lead with
  | nil => exact ⟨[], [], by simp [splitFrom]⟩
  | cons c text ih =>
    rw [splitFrom]
    split
    · exact ⟨[], splitFrom isSeparator [] text, by simp⟩
    · obtain ⟨first, rest, heq⟩ := ih (c :: lead)
      exact ⟨c :: first, rest, by simp [heq]⟩

theorem exists_mem_splitFrom {isSeparator : Char → Bool} (h : ∀ c ∈ piece, isSeparator c = false)
    (hpc : piece <:+: text) (lead : List Char) : ∃ part ∈ splitFrom isSeparator lead text, piece <:+: part := by
  obtain ⟨before, behind, rfl⟩ := hpc
  induction before generalizing lead with
  | nil =>
    rw [nil_append, splitFrom_append h]
    obtain ⟨first, rest, heq⟩ := exists_splitFrom isSeparator (piece.reverse ++ lead) behind
    rw [heq]
    exact ⟨_, .head _, lead.reverse, first, by simp⟩
  | cons c before ih =>
    rw [cons_append, cons_append, splitFrom]
    split
    · obtain ⟨part, hp, hw⟩ := ih []
      exact ⟨part, .tail _ hp, hw⟩
    · exact ih (c :: lead)

theorem OneLine.ne_nil (h : OneLine piece) : piece ≠ [] := by
  rintro rfl
  obtain ⟨c, hc, -⟩ := h.ink
  cases hc

theorem OneLine.append {sign : List Char} (hs : OneLine sign) (hp : '\n' ∉ part) : OneLine (part ++ sign) where
  noBreak hm := (mem_append.mp hm).elim hp hs.noBreak
  ink := hs.ink.imp fun _ hc => ⟨mem_append_right _ hc.1, hc.2⟩
  noReturn := by
    rw [getLast?_append_of_ne_nil _ hs.ne_nil]
    exact hs.noReturn

theorem OneLine.isInfix_dropReturn (h : OneLine piece) (hp : piece <:+: part) : piece <:+: dropReturn part := by
  unfold dropReturn
  split
  · next rest hr =>
    have heq : part = rest.reverse ++ ['\r'] := by
      rw [← part.reverse_reverse, hr, reverse_cons]
    obtain ⟨before, behind, rfl⟩ := hp
    rcases eq_nil_or_concat behind with rfl | ⟨behind, last, rfl⟩
    · refine absurd ?_ h.noReturn
      have hl := congrArg List.getLast? heq
      rwa [append_nil, getLast?_append_of_ne_nil _ h.ne_nil, getLast?_concat] at hl
    · rw [concat_eq_append, ← append_assoc] at heq
      rw [← append_inj_left' heq rfl]
      exact ⟨before, behind, rfl⟩
  · exact hp

theorem OneLine.exists_mem_linesOfPieces {parts : List (List Char)} (h : OneLine piece) (hp : part ∈ parts)
    (hpc : piece <:+: part) : ∃ line ∈ linesOfPieces parts, piece <:+: line := by
  induction parts with
  | nil => cases hp
  | cons first rest ih =>
    cases rest with
    | nil =>
      obtain rfl := mem_singleton.mp hp
      have hn : part ≠ [] := by
        rintro rfl
        exact h.ne_nil (infix_nil.mp hpc)
      refine ⟨part, ?_, hpc⟩
      simp [linesOfPieces, hn]
    | cons second rest =>
      rw [linesOfPieces]
      rcases mem_cons.mp hp with rfl | hp
      · exact ⟨_, .head _, h.isInfix_dropReturn hpc⟩
      · obtain ⟨line, hl, hw⟩ := ih hp
        exact ⟨line, .tail _ hl, hw⟩
      · simp

theorem OneLine.exists_line (h : OneLine piece) (hpc : piece <:+: text) :
    ∃ line ∈ linesOfChars text, piece <:+: line := by
  have hb : ∀ c ∈ piece, (c == '\n') = false := fun c hc => beq_false_of_ne fun heq => h.noBreak (heq ▸ hc)
  obtain ⟨part, hp, hw⟩ := exists_mem_splitFrom hb hpc []
  exact h.exists_mem_linesOfPieces hp hw

theorem isInfix_joinChars {sep line : List Char} {lines : List (List Char)} (h : line ∈ lines) :
    line <:+: joinChars sep lines := by
  rw [joinChars]
  induction lines with
  | nil => cases h
  | cons first rest ih =>
    cases rest with
    | nil =>
      obtain rfl := mem_singleton.mp h
      simp
    | cons second rest =>
      rw [intercalate_cons_cons]
      rcases mem_cons.mp h with rfl | h
      · rw [append_assoc]
        exact (prefix_append _ _).isInfix
      · exact (ih h).trans (suffix_append _ _).isInfix

theorem isInfix_join {sep line : String} {lines : List String} (h : line ∈ lines) :
    line.toList <:+: (join sep lines).toList := by
  rw [join, String.toList_intercalate]
  exact isInfix_joinChars (mem_map_of_mem h)

/-- **Indenting keeps what is on one line.** -/
theorem OneLine.isInfix_indent {text lead : String} (h : OneLine piece) (hp : piece <:+: text.toList) :
    piece <:+: (indent text lead).toList := by
  obtain ⟨line, hl, hw⟩ := h.exists_line hp
  obtain ⟨c, hc, hi⟩ := h.ink
  have hb : isBlankChars line = false := by
    rw [isBlankChars, all_eq_false]
    exact ⟨c, hw.subset hc, by simp [hi]⟩
  rw [indent, String.toList_ofList]
  refine List.IsInfix.trans ?_ (isInfix_joinChars (mem_map_of_mem hl))
  rw [indentLine, hb, if_neg (by simp)]
  exact hw.trans (suffix_append _ _).isInfix

end Polyview.Text
