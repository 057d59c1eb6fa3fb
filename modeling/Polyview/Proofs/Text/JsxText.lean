import Mathlib.Algebra.GroupWithZero.Nat
import Mathlib.Data.List.Basic
import Polyview.Text.JsxText

/-! # What remains of text between tags

Text between tags keeps its characters, apart from breaks, tabs and spaces at the ends of lines; it does not get longer.
What remains is one line, and of one line all remains. -/

namespace Polyview.Text

open List

variable {c : Char} {cs : List Char}

/-! ### Lines -/

theorem mem_splitFrom {test : Char → Bool} {piece line : List Char} (h : line ∈ splitFrom test piece cs)
    (hc : c ∈ line) : c ∈ piece ∨ c ∈ cs ∧ test c = false := by
  induction cs generalizing piece with
  | nil =>
    rw [splitFrom, mem_singleton] at h
    rw [h, mem_reverse] at hc
    exact .inl hc
  | cons d cs ih =>
    rw [splitFrom] at h
    split at h
    · rcases mem_cons.mp h with rfl | h
      · exact .inl (mem_reverse.mp hc)
      · rcases ih h with hn | ⟨hm, ht⟩
        · cases hn
        · exact .inr ⟨.tail _ hm, ht⟩
    · next hd =>
      rcases ih h with hm | ⟨hm, ht⟩
      · rcases mem_cons.mp hm with rfl | hm
        · exact .inr ⟨.head _, by simpa using hd⟩
        · exact .inl hm
      · exact .inr ⟨.tail _ hm, ht⟩

/-- The lengths of lines, each with the break behind it. -/
def lengthOfLines (lines : List (List Char)) : ℕ := (lines.map fun line => line.length + 1).sum

theorem lengthOfLines_splitFrom (test : Char → Bool) (piece cs : List Char) :
    lengthOfLines (splitFrom test piece cs) = piece.length + cs.length + 1 := by
  induction cs generalizing piece with
  | nil => simp [splitFrom, lengthOfLines]
  | cons d cs ih =>
    rw [splitFrom]
    split
    · have := ih []
      simp only [lengthOfLines, map_cons, sum_cons, length_reverse, length_nil, length_cons] at *
      omega
    · rw [ih]
      simp only [length_cons]
      omega

theorem splitNewlines_of_not_mem (h : '\n' ∉ cs) : splitNewlines cs = [cs] := by
  have hf (piece : List Char) : splitFrom (· == '\n') piece cs = [piece.reverse ++ cs] := by
    induction cs generalizing piece with
    | nil => simp [splitFrom]
    | cons c cs ih =>
      rw [mem_cons, not_or] at h
      have hc : (c == '\n') = false := beq_false_of_ne fun heq => h.1 heq.symm
      rw [splitFrom, hc, if_neg (by simp), ih h.2]
      simp
  exact hf []

/-! ### Stripped lines -/

theorem mem_stripLine {isFirst isLast : Bool} {line : List Char} (h : c ∈ stripLine isFirst isLast line) :
    c ≠ '\t' ∧ (c = ' ' ∨ c ∈ line) := by
  have hsp : c ∈ line.map fun d => if d == '\t' then ' ' else d := by
    unfold stripLine at h
    extract_lets spaced started at h
    have hs : ∀ d ∈ started, d ∈ spaced := by
      intro d hd
      unfold started at hd
      split at hd
      · exact hd
      · exact (dropWhile_sublist _).subset hd
    split at h
    · exact hs c h
    · exact hs c (mem_reverse.mp ((dropWhile_sublist _).subset (mem_reverse.mp h)))
  obtain ⟨d, hd, heq⟩ := mem_map.mp hsp
  split at heq
  · rw [← heq]
    exact ⟨by decide, .inl rfl⟩
  · next hn =>
    rw [← heq]
    exact ⟨by simpa using hn, .inr hd⟩

theorem length_stripLine_le (isFirst isLast : Bool) (line : List Char) :
    (stripLine isFirst isLast line).length ≤ line.length := by
  unfold stripLine
  extract_lets spaced started
  have hsp : spaced.length = line.length := length_map ..
  have hs : started.length ≤ spaced.length := by
    unfold started
    split
    · exact Nat.le_refl _
    · exact (dropWhile_sublist _).length_le
  split
  · omega
  · rw [length_reverse]
    have := (dropWhile_sublist (fun d : Char => d == ' ') (l := started.reverse)).length_le
    rw [length_reverse] at this
    omega

theorem mem_joinStripped {count inked i : ℕ} {lines : List (List Char)} (h : c ∈ joinStripped count inked i lines) :
    c ≠ '\t' ∧ (c = ' ' ∨ ∃ line ∈ lines, c ∈ line) := by
  induction lines generalizing i with
  | nil => cases h
  | cons line lines ih =>
    have hl (hm : c ∈ stripLine (i == 0) (i + 1 == count) line) :
        c ≠ '\t' ∧ (c = ' ' ∨ ∃ other ∈ line :: lines, c ∈ other) := by
      obtain ⟨ht, hm⟩ := mem_stripLine hm
      exact ⟨ht, hm.imp_right fun hm => ⟨line, .head _, hm⟩⟩
    have hr (hm : c ∈ joinStripped count inked (i + 1) lines) :
        c ≠ '\t' ∧ (c = ' ' ∨ ∃ other ∈ line :: lines, c ∈ other) := by
      obtain ⟨ht, hm⟩ := ih hm
      refine ⟨ht, hm.imp_right ?_⟩
      rintro ⟨other, ho, hm⟩
      exact ⟨other, .tail _ ho, hm⟩
    rw [joinStripped] at h
    split at h
    · exact hr h
    · split at h
      · rcases mem_append.mp h with h | h
        · exact hl h
        · exact hr h
      · rcases mem_append.mp h with h | h
        · exact hl h
        · rcases mem_cons.mp h with rfl | h
          · exact ⟨by decide, .inl rfl⟩
          · exact hr h

/-- Lines get no longer when they are joined; the space behind the line `inked` is saved. -/
theorem length_joinStripped_le (count inked i : ℕ) (lines : List (List Char)) :
    (joinStripped count inked i lines).length ≤ lengthOfLines lines ∧
      (i ≤ inked → inked < i + lines.length → (joinStripped count inked i lines).length < lengthOfLines lines) := by
  induction lines generalizing i with
  | nil =>
    refine ⟨Nat.zero_le _, fun hle hl => ?_⟩
    simp at hl
    omega
  | cons line lines ih =>
    obtain ⟨hle, hl⟩ := ih (i + 1)
    have hs := length_stripLine_le (i == 0) (i + 1 == count) line
    rw [joinStripped]
    simp only [lengthOfLines, map_cons, sum_cons, length_cons] at hle hl ⊢
    split
    · exact ⟨by omega, fun _ _ => by omega⟩
    · split
      · rw [length_append]
        exact ⟨by omega, fun _ _ => by omega⟩
      · next hn =>
        rw [beq_iff_eq] at hn
        rw [length_append, length_cons]
        exact ⟨by omega, fun _ _ => by have := hl (by omega) (by omega); omega⟩

/-! ### Texts -/

/-- What remains holds neither breaks nor tabs, and no characters that the text has not, spaces apart. -/
theorem mem_cleanJsxChars (h : c ∈ cleanJsxChars cs) : c ≠ '\n' ∧ c ≠ '\t' ∧ (c = ' ' ∨ c ∈ cs) := by
  obtain ⟨ht, rfl | ⟨line, hl, hc⟩⟩ := mem_joinStripped h
  · exact ⟨by decide, ht, .inl rfl⟩
  · obtain ⟨whole, hw, rfl⟩ := mem_map.mp hl
    have hm := mem_reverse.mp ((dropWhile_sublist _).subset (mem_reverse.mp hc))
    rcases mem_splitFrom hw hm with hn | ⟨hm, hf⟩
    · cases hn
    · exact ⟨by simpa using hf, ht, .inr hm⟩

theorem lengthOfLines_map_le (shorten : List Char → List Char) (h : ∀ line, (shorten line).length ≤ line.length)
    (lines : List (List Char)) : lengthOfLines (lines.map shorten) ≤ lengthOfLines lines := by
  induction lines with
  | nil => exact Nat.le_refl _
  | cons line lines ih =>
    have := h line
    simp only [lengthOfLines, map_cons, sum_cons] at ih ⊢
    omega

/-- Text gets no longer. -/
theorem length_cleanJsxChars_le (cs : List Char) : (cleanJsxChars cs).length ≤ cs.length := by
  have hs (line : List Char) : ((line.reverse.dropWhile (· == '\r')).reverse).length ≤ line.length := by
    rw [length_reverse, ← line.length_reverse]
    exact (dropWhile_sublist _).length_le
  have hl := lengthOfLines_map_le _ hs (splitNewlines cs)
  have hsp : lengthOfLines (splitNewlines cs) = cs.length + 1 := by
    simpa [splitNewlines] using lengthOfLines_splitFrom (· == '\n') [] cs
  unfold cleanJsxChars
  extract_lets lines
  have hli : lengthOfLines lines ≤ cs.length + 1 := by
    rw [← hsp]
    exact hl
  have hp : 0 < lines.length := by
    rw [length_map, length_pos_iff]
    intro hn
    rw [hn] at hsp
    cases hsp
  have hi : lastInked lines < lines.length := by
    have := (dropWhile_sublist (fun line : List Char => !hasInk line) (l := lines.reverse)).length_le
    rw [length_reverse] at this
    rw [lastInked]
    omega
  have := (length_joinStripped_le lines.length (lastInked lines) 0 lines).2 (Nat.zero_le _) (by omega)
  omega

/-- Of one line without tabs and carriage returns, all remains. -/
theorem cleanJsxChars_eq_self (hf : '\n' ∉ cs) (ht : '\t' ∉ cs) (hre : '\r' ∉ cs) : cleanJsxChars cs = cs := by
  have hk : (cs.reverse.dropWhile (· == '\r')).reverse = cs := by
    cases hr : cs.reverse with
    | nil => simpa using hr.symm
    | cons c others =>
      have hc : (c == '\r') = false := beq_false_of_ne fun heq => hre (mem_reverse.mp (by simp [hr, heq]))
      rw [dropWhile_cons, hc, if_neg (by simp), ← hr, reverse_reverse]
  have hs : cs.map (fun c => if c == '\t' then ' ' else c) = cs := by
    refine (map_congr_left fun c hc => ?_).trans (map_id cs)
    have hn : (c == '\t') = false := beq_false_of_ne fun heq => ht (heq ▸ hc)
    rw [hn]
    rfl
  unfold cleanJsxChars
  rw [splitNewlines_of_not_mem hf]
  simp only [map_cons, map_nil, hk, length_singleton, joinStripped, stripLine, hs]
  cases cs with
  | nil => rfl
  | cons c cs =>
    have hi : lastInked [c :: cs] = 0 := by
      have := (dropWhile_sublist (fun line : List Char => !hasInk line) (l := [c :: cs].reverse)).length_le
      rw [lastInked, reverse_singleton] at *
      simp only [length_singleton] at this
      omega
    simp [hi]

end Polyview.Text
