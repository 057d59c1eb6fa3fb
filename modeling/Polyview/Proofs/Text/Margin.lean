import Mathlib.Data.List.Forall2
import Polyview.Proofs.Text.JsxLines
import Polyview.Proofs.Text.Trimming
import Polyview.Text.Indentation

/-! # The margin of a text

`dedent` takes blanks off the ends of lines, always whole characters (`trims_removeIndent`), and what it leaves has no
margin: one line starts with ink (`flushLeft_dedentLines`). Where lines without a margin get one, `dedent` takes
exactly this margin off again (`dedent_indented`), and one of no width as well. -/

namespace Polyview.Text

open List

variable {c : Char} {line lead : List Char} {lines : List (List Char)} {width : ℕ}

/-! ### Lines of a text -/

theorem mem_of_mem_dropReturn (h : c ∈ dropReturn line) : c ∈ line := by
  unfold dropReturn at h
  split at h
  · next rest heq =>
    rw [← mem_reverse, heq]
    exact .tail _ (mem_reverse.mp h)
  · exact h

theorem exists_piece_of_line {pieces : List (List Char)} (h : line ∈ linesOfPieces pieces) :
    ∃ piece ∈ pieces, line ⊆ piece := by
  fun_induction linesOfPieces pieces with
  | case1 => cases h
  | case2 last he => cases h
  | case3 last he => exact ⟨last, .head _, by rw [mem_singleton.mp h]; exact fun _ hc => hc⟩
  | case4 piece rest _ ih =>
    rcases mem_cons.mp h with rfl | h
    · exact ⟨piece, .head _, fun _ => mem_of_mem_dropReturn⟩
    · obtain ⟨other, ho, hs⟩ := ih h
      exact ⟨other, .tail _ ho, hs⟩

theorem newline_notMem_of_mem_linesOfChars {cs : List Char} (h : line ∈ linesOfChars cs) : '\n' ∉ line := by
  obtain ⟨piece, hp, hs⟩ := exists_piece_of_line h
  intro hm
  rcases mem_splitFrom hp (hs hm) with hn | ⟨-, ht⟩
  · cases hn
  · cases ht

theorem dropReturn_of_trimmed (h : trimEndChars line = line) : dropReturn line = line := by
  unfold dropReturn
  split
  · next rest hr =>
    rw [← line.reverse_reverse, hr, reverse_cons] at h
    have hl := rdropWhile_eq_self_iff.mp h (by simp)
    rw [getLast_concat] at hl
    exact absurd rfl hl
  · rfl

/-- Lines that do not end blank, the last of them not empty, are the lines of the text that they make up. -/
theorem linesOfChars_joinChars (hb : ∀ line ∈ lines, '\n' ∉ line) (ht : ∀ line ∈ lines, trimEndChars line = line)
    (hl : ∀ line ∈ lines.getLast?, line ≠ []) : linesOfChars (joinChars ['\n'] lines) = lines := by
  by_cases hn : lines = []
  · subst hn
    rfl
  rw [linesOfChars, splitNewlines_eq_splitOn, joinChars, splitOn_intercalate _ hb hn]
  clear hn hb
  induction lines with
  | nil => rfl
  | cons line rest ih =>
    cases rest with
    | nil => simpa [linesOfPieces] using hl
    | cons next rest =>
      obtain ⟨hli, ht⟩ := forall_mem_cons.mp ht
      rw [linesOfPieces, dropReturn_of_trimmed hli, ih ht (by simpa using hl)]
      exact cons_ne_nil _ _

/-! ### One line -/

/-- A text is what is left of a line without blanks at its ends. -/
def Trims (line kept : List Char) : Prop :=
  ∃ cut tail, line = cut ++ (kept ++ tail) ∧ ∀ c ∈ cut ++ tail, isBlank c = true

theorem isBlankChars_iff : isBlankChars line ↔ ∀ c ∈ line, isBlank c = true := by
  rw [isBlankChars, all_eq_true]

theorem trims_trimEndChars {cut rest : List Char} (hcu : ∀ c ∈ cut, isBlank c) :
    Trims (cut ++ rest) (trimEndChars rest) := by
  obtain ⟨tail, ht⟩ := trimEndChars_isPrefix rest
  refine ⟨cut, tail, by rw [ht], fun c hc => ?_⟩
  rcases mem_append.mp hc with hc | hc
  · exact hcu c hc
  · refine trimEndChars_eq_nil.mp ?_ c hc
    by_contra hi
    have hk := trimEndChars_append (trimEndChars rest) hi
    rw [ht] at hk
    exact hi (self_eq_append_right.mp hk)

/-- What is removed from a line are blanks: no character is cut in two. -/
theorem trims_removeIndent (width : ℕ) (line : List Char) : Trims line (removeIndent width line) := by
  have ht : Trims line (trimChars line) := by
    have hw := takeWhile_append_dropWhile (p := isBlank) (l := line)
    have h := @trims_trimEndChars (line.takeWhile isBlank) (line.dropWhile isBlank) fun _ => mem_takeWhile_imp
    rwa [hw] at h
  unfold removeIndent
  split
  · next cut rest hc =>
    split
    · next hb =>
      rw [(eq_append_of_splitBytes? hc).1]
      exact trims_trimEndChars (isBlankChars_iff.mp hb)
    · exact ht
  · exact ht

theorem Trims.subset {kept : List Char} (h : Trims line kept) : kept ⊆ line := by
  obtain ⟨cut, tail, rfl, -⟩ := h
  exact fun c hc => mem_append_right _ (mem_append_left _ hc)

theorem Trims.isBlankChars_eq {kept : List Char} (h : Trims line kept) : isBlankChars kept = isBlankChars line := by
  obtain ⟨cut, tail, rfl, hb⟩ := h
  have ha : isBlankChars (cut ++ tail) := isBlankChars_iff.mpr hb
  simp only [isBlankChars, all_append, Bool.and_eq_true] at ha ⊢
  rw [ha.1, ha.2, Bool.true_and, Bool.and_true]

theorem trimEndChars_removeIndent (width : ℕ) (line : List Char) :
    trimEndChars (removeIndent width line) = removeIndent width line := by
  unfold removeIndent
  split
  · split
    · exact trimEndChars_trimEndChars _
    · exact trimEndChars_trimEndChars _
  · exact trimEndChars_trimEndChars _

theorem removeIndent_indentWidth (line : List Char) : removeIndent (indentWidth line) line = trimChars line := by
  have hb : isBlankChars (line.takeWhile isBlank) := isBlankChars_iff.mpr fun c hc => mem_takeWhile_imp hc
  have hcu := splitBytes?_byteLength (line.takeWhile isBlank) (line.dropWhile isBlank)
  rw [takeWhile_append_dropWhile] at hcu
  rw [removeIndent, indentWidth, hcu]
  exact if_pos hb

theorem inked_trimChars (line : List Char) : Inked (trimChars line) := by
  have hs : Inked (trimStartChars line) := by
    intro c hc
    have hn := head?_dropWhile_not isBlank line
    rw [show (line.dropWhile isBlank).head? = some c from hc] at hn
    simpa using hn
  exact hs.of_isPrefix (trimEndChars_isPrefix _)

/-! ### The margin of lines -/

/-- Lines without a margin: one starts with ink, the first and the last are not blank, and none ends blank. -/
structure FlushLeft (lines : List (List Char)) : Prop where
  noBreak : ∀ line ∈ lines, '\n' ∉ line
  trimmed : ∀ line ∈ lines, trimEndChars line = line
  first : ∀ line ∈ lines.head?, isBlankChars line = false
  last : ∀ line ∈ lines.getLast?, isBlankChars line = false
  start : ∃ line ∈ lines, line ≠ [] ∧ Inked line

theorem dropBlankEdges_eq_self (hf : ∀ line ∈ lines.head?, isBlankChars line = false)
    (hl : ∀ line ∈ lines.getLast?, isBlankChars line = false) : dropBlankEdges lines = lines := by
  have hs : lines.dropWhile isBlankChars = lines := by
    cases lines with
    | nil => rfl
    | cons line rest => exact dropWhile_cons_of_neg (by simp [hf line rfl])
  rw [dropBlankEdges, hs]
  exact rdropWhile_eq_self_iff.mpr fun hn => by simp [hl _ (getLast?_eq_getLast_of_ne_nil hn)]

/-- What is left between blank edges does not start or end with a blank line. -/
theorem ends_dropBlankEdges (lines : List (List Char)) :
    (∀ line ∈ (dropBlankEdges lines).head?, isBlankChars line = false) ∧
      ∀ line ∈ (dropBlankEdges lines).getLast?, isBlankChars line = false := by
  refine ⟨fun line hl => ?_, fun line hl => ?_⟩
  · obtain ⟨rest, hr⟩ := head?_eq_some_iff.mp hl
    obtain ⟨more, hm⟩ := rdropWhile_prefix isBlankChars (lines.dropWhile isBlankChars)
    have hn := head?_dropWhile_not isBlankChars lines
    rw [← hm, show List.rdropWhile isBlankChars _ = line :: rest from hr] at hn
    simpa using hn
  · obtain ⟨front, hf⟩ := getLast?_eq_some_iff.mp hl
    have hne : dropBlankEdges lines ≠ [] := by simp [hf]
    have hn := rdropWhile_last_not isBlankChars (lines.dropWhile isBlankChars) hne
    simp only [show List.rdropWhile isBlankChars _ = front ++ [line] from hf, getLast_concat] at hn
    simpa using hn

theorem exists_indentWidth_eq (h : ∃ line ∈ lines, isBlankChars line = false) :
    ∃ line ∈ lines, isBlankChars line = false ∧ indentWidth line = commonIndent lines := by
  obtain ⟨line, hl, hi⟩ := h
  rw [commonIndent]
  cases hmi : ((lines.filter fun line => !isBlankChars line).map indentWidth).min? with
  | none =>
    rw [min?_eq_none_iff, map_eq_nil_iff] at hmi
    have hm : line ∈ lines.filter fun line => !isBlankChars line := mem_filter.mpr ⟨hl, by simp [hi]⟩
    rw [hmi] at hm
    cases hm
  | some width =>
    obtain ⟨other, ho, hw⟩ := mem_map.mp (min?_mem hmi)
    obtain ⟨hm, ho⟩ := mem_filter.mp ho
    exact ⟨other, hm, by simpa using ho, hw⟩

/-- **What `dedent` leaves has no margin**, unless it is nothing. -/
theorem flushLeft_dedentLines (hb : ∀ line ∈ lines, '\n' ∉ line) :
    dedentLines lines = [] ∨ FlushLeft (dedentLines lines) := by
  by_cases hn : dropBlankEdges lines = []
  · left
    rw [dedentLines, hn]
    rfl
  right
  obtain ⟨hf, hla⟩ := ends_dropBlankEdges lines
  have hs : dropBlankEdges lines ⊆ lines :=
    fun line hl => (dropWhile_sublist _).subset ((List.rdropWhile_prefix _ _).subset hl)
  have hmo (line : List Char) := trims_removeIndent (commonIndent (dropBlankEdges lines)) line
  refine ⟨?_, ?_, ?_, ?_, ?_⟩
  · intro _ hl
    obtain ⟨line, hm, rfl⟩ := mem_map.mp hl
    exact fun h => hb line (hs hm) ((hmo line).subset h)
  · intro _ hl
    obtain ⟨line, -, rfl⟩ := mem_map.mp hl
    exact trimEndChars_removeIndent _ _
  · intro _ hl
    rw [dedentLines, head?_map] at hl
    obtain ⟨line, hm, rfl⟩ := Option.map_eq_some_iff.mp hl
    rw [(hmo line).isBlankChars_eq, hf line hm]
  · intro _ hl
    rw [dedentLines, getLast?_map] at hl
    obtain ⟨line, hm, rfl⟩ := Option.map_eq_some_iff.mp hl
    rw [(hmo line).isBlankChars_eq, hla line hm]
  · obtain ⟨line, hm, hi, hw⟩ := exists_indentWidth_eq
      ⟨_, head_mem hn, hf _ (head?_eq_some_head hn)⟩
    refine ⟨_, mem_map_of_mem hm, ?_⟩
    rw [← hw, removeIndent_indentWidth]
    refine ⟨?_, inked_trimChars line⟩
    intro he
    rw [← (hmo line).isBlankChars_eq, ← hw, removeIndent_indentWidth, he] at hi
    cases hi

/-! ### Lines that get a margin -/

theorem trimEndChars_indentLine (lead : List Char) (h : trimEndChars line = line) :
    trimEndChars (indentLine lead line) = indentLine lead line := by
  unfold indentLine
  split
  · rfl
  · next hi =>
    have hne : trimEndChars line ≠ [] := fun hn => hi (isBlankChars_iff.mpr (trimEndChars_eq_nil.mp hn))
    rw [trimEndChars_append lead hne, h]

section

variable (hlead : ∀ c ∈ lead, isBlank c = true)
include hlead

theorem isBlankChars_indentLine (line : List Char) : isBlankChars (indentLine lead line) = isBlankChars line := by
  unfold indentLine
  split
  · next hb => rw [hb]; rfl
  · rw [isBlankChars, all_append, ← isBlankChars, ← isBlankChars, isBlankChars_iff.mpr hlead, Bool.true_and]

theorem indentWidth_append (line : List Char) : indentWidth (lead ++ line) = byteLength lead + indentWidth line := by
  rw [indentWidth, takeWhile_append_of_pos hlead, byteLength_append, indentWidth]

theorem removeIndent_indentLine (h : trimEndChars line = line) :
    removeIndent (byteLength lead) (indentLine lead line) = line := by
  unfold indentLine
  split
  · next hb =>
    have hn : line = [] := by rw [← h, trimEndChars_eq_nil.mpr (isBlankChars_iff.mp hb)]
    rw [hn]
    cases byteLength lead <;> rfl
  · rw [removeIndent, splitBytes?_byteLength]
    exact (if_pos (isBlankChars_iff.mpr hlead)).trans h

/-- The margin of lines that had none is the one that they got. -/
theorem commonIndent_map_indentLine (h : FlushLeft lines) :
    commonIndent (lines.map (indentLine lead)) = byteLength lead := by
  obtain ⟨line, hl, hn, hi⟩ := h.start
  have hin : isBlankChars line = false := by
    cases line with
    | nil => exact absurd rfl hn
    | cons c cs => simp [isBlankChars, hi c rfl]
  have hw : indentWidth (indentLine lead line) = byteLength lead := by
    have hs : indentWidth line = 0 := by
      cases line with
      | nil => rfl
      | cons c cs => simp [indentWidth, hi c rfl]
    rw [indentLine, hin, if_neg (by simp), indentWidth_append hlead, hs, Nat.add_zero]
  have hmi : (((lines.map (indentLine lead)).filter fun line => !isBlankChars line).map indentWidth).min? =
      some (byteLength lead) := by
    refine min?_eq_some_iff.mpr ⟨?_, fun width hme => ?_⟩
    · refine mem_map.mpr ⟨_, mem_filter.mpr ⟨mem_map_of_mem hl, ?_⟩, hw⟩
      simp [isBlankChars_indentLine hlead, hin]
    · obtain ⟨moved, hm, rfl⟩ := mem_map.mp hme
      obtain ⟨hm, ho⟩ := mem_filter.mp hm
      obtain ⟨other, -, rfl⟩ := mem_map.mp hm
      rw [Bool.not_eq_true', isBlankChars_indentLine hlead] at ho
      rw [indentLine, ho, if_neg (by simp), indentWidth_append hlead]
      exact Nat.le_add_right _ _
  rw [commonIndent, hmi]
  rfl

theorem dedentLines_map_indentLine (h : FlushLeft lines) : dedentLines (lines.map (indentLine lead)) = lines := by
  have he : dropBlankEdges (lines.map (indentLine lead)) = lines.map (indentLine lead) := by
    refine dropBlankEdges_eq_self (fun _ hl => ?_) fun _ hl => ?_
    · rw [head?_map] at hl
      obtain ⟨line, hm, rfl⟩ := Option.map_eq_some_iff.mp hl
      rw [isBlankChars_indentLine hlead, h.first line hm]
    · rw [getLast?_map] at hl
      obtain ⟨line, hm, rfl⟩ := Option.map_eq_some_iff.mp hl
      rw [isBlankChars_indentLine hlead, h.last line hm]
  rw [dedentLines, he, commonIndent_map_indentLine hlead h, map_map]
  exact (map_congr_left fun line hl => removeIndent_indentLine hlead (h.trimmed line hl)).trans (map_id _)

theorem linesOfChars_indented (hb : '\n' ∉ lead) (h : FlushLeft lines) :
    linesOfChars (joinChars ['\n'] (lines.map (indentLine lead))) = lines.map (indentLine lead) := by
  refine linesOfChars_joinChars ?_ ?_ ?_
  · intro _ hl
    obtain ⟨line, hm, rfl⟩ := mem_map.mp hl
    unfold indentLine
    split
    · exact not_mem_nil
    · exact fun hc => (mem_append.mp hc).elim hb (h.noBreak line hm)
  · intro _ hl
    obtain ⟨line, hm, rfl⟩ := mem_map.mp hl
    exact trimEndChars_indentLine lead (h.trimmed line hm)
  · intro _ hl
    rw [getLast?_map] at hl
    obtain ⟨line, hm, rfl⟩ := Option.map_eq_some_iff.mp hl
    intro hn
    have hi := isBlankChars_indentLine hlead line
    rw [hn, h.last line hm] at hi
    cases hi

/-- **`dedent` takes the margin off** that lines without a margin got. -/
theorem dedent_indented (hb : '\n' ∉ lead) (h : lines = [] ∨ FlushLeft lines) :
    dedent (String.ofList (joinChars ['\n'] (lines.map (indentLine lead)))) = String.ofList (joinChars ['\n'] lines) := by
  rcases h with rfl | h
  · rfl
  · rw [dedent, String.toList_ofList, linesOfChars_indented hlead hb h, dedentLines_map_indentLine hlead h]

end

/-- Setting a margin of no width changes nothing. -/
theorem map_indentLine_nil (h : lines = [] ∨ FlushLeft lines) : lines.map (indentLine []) = lines := by
  rcases h with rfl | h
  · rfl
  · refine (map_congr_left fun line hl => ?_).trans (map_id _)
    unfold indentLine
    split
    · next hb =>
      have ht := h.trimmed line hl
      rwa [trimEndChars_eq_nil.mpr (isBlankChars_iff.mp hb)] at ht
    · rfl

/-- **What `dedent` gives is a normal form.** Its lines are those of the text between blank edges, less blanks at their
ends; taking the margin off once more changes nothing, also if one of spaces has been set before; and if it is not empty,
it has no margin. -/
theorem dedent_normal_form (text : String) :
    List.Forall₂ Trims (dropBlankEdges (linesOfChars text.toList)) (linesOfChars (dedent text).toList) ∧
      dedent (dedent text) = dedent text ∧
      (∀ n, dedent (indent (dedent text) (String.ofList (List.replicate n ' '))) = dedent text) ∧
      (dedent text = "" ∨ FlushLeft (linesOfChars (dedent text).toList)) := by
  have hf := flushLeft_dedentLines fun line (hli : line ∈ linesOfChars text.toList) =>
    newline_notMem_of_mem_linesOfChars hli
  have hn : ∀ c ∈ ([] : List Char), isBlank c = true := fun c hc => by cases hc
  have hl : linesOfChars (dedent text).toList = dedentLines (linesOfChars text.toList) := by
    rw [dedent, String.toList_ofList]
    rcases hf with he | hf
    · rw [he]
      rfl
    · have h := linesOfChars_indented hn (by simp) hf
      rwa [map_indentLine_nil (.inr hf)] at h
  refine ⟨?_, ?_, fun n => ?_, ?_⟩
  · rw [hl, dedentLines, forall₂_map_right_iff]
    exact forall₂_same.mpr fun line _ => trims_removeIndent _ line
  · have h := dedent_indented hn (by simp) hf
    rwa [map_indentLine_nil hf] at h
  · have hs : ∀ c ∈ List.replicate n ' ', isBlank c = true := fun c hc => by
      rw [eq_of_mem_replicate hc]
      rfl
    have hb : '\n' ∉ List.replicate n ' ' := fun hc => by cases eq_of_mem_replicate hc
    rw [indent, String.toList_ofList, hl]
    exact dedent_indented hs hb hf
  · rw [hl]
    refine hf.imp (fun he => ?_) id
    rw [dedent, he]
    rfl

end Polyview.Text
