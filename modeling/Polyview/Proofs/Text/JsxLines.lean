import Mathlib.Data.List.DropRight
import Polyview.Proofs.Text.JsxText

/-! # The rule for text between tags

`cleanJsxChars` goes over the lines once: it puts a space behind every line with something left, except behind the
line that was found to be the last with ink before any line was stripped. The rule that it follows is said without
that index: tabs become spaces, lines lose the spaces at their ends, except at the two ends of the text, lines with
nothing left are dropped, and the others are joined by one space (`keptLines`, `cleanJsxChars_eq_intercalate`).

The two agree since with more than one line a stripped line has something left exactly if the line has ink
(`strippedAt_eq_nil_iff`), and a single line is not stripped at all. -/

namespace Polyview.Text

open List

/-- A line with its tabs as spaces. -/
def untabbed (line : List Char) : List Char := line.map fun c => if c = '\t' then ' ' else c

/-- The line at an index of several, stripped of leading spaces unless it is the first and of trailing spaces
unless it is the last. -/
def strippedAt (count index : ℕ) (line : List Char) : List Char :=
  let started := if index = 0 then untabbed line else (untabbed line).dropWhile (· == ' ')
  if index + 1 = count then started else started.rdropWhile (· == ' ')

/-- The stripped lines of which something is left. -/
def keptLines (lines : List (List Char)) : List (List Char) :=
  (lines.mapIdx (strippedAt lines.length)).filter fun line => !line.isEmpty

variable {line cs : List Char} {lines : List (List Char)} {count inked index : ℕ}

/-! ### Lines -/

theorem splitNewlines_eq_splitOn (cs : List Char) : splitNewlines cs = cs.splitOn '\n' := by
  have hf (piece : List Char) : splitFrom (· == '\n') piece cs = cs.splitOnPPrepend (· == '\n') piece := by
    induction cs generalizing piece with
    | nil => rfl
    | cons c cs ih => rw [splitFrom, List.splitOnPPrepend, ih, ih]
  exact hf []

/-- A text without carriage returns has lines without any. -/
theorem dropReturns_splitNewlines (h : '\r' ∉ cs) :
    ((splitNewlines cs).map fun line => (line.reverse.dropWhile (· == '\r')).reverse) = splitNewlines cs := by
  refine (map_congr_left fun line hli => ?_).trans (map_id _)
  refine rdropWhile_eq_self_iff.mpr fun hne hl => ?_
  have hm : '\r' ∈ line := beq_iff_eq.mp hl ▸ getLast_mem hne
  rcases mem_splitFrom hli hm with hn | ⟨hm, -⟩
  · cases hn
  · exact h hm

/-! ### Stripped lines -/

theorem stripLine_eq_strippedAt (count index : ℕ) (line : List Char) :
    stripLine (index == 0) (index + 1 == count) line = strippedAt count index line := by
  unfold stripLine strippedAt
  simp only [beq_iff_eq]
  rfl

theorem untabbed_blank_iff : (∀ c ∈ untabbed line, (c == ' ') = true) ↔ hasInk line = false := by
  simp only [untabbed, hasInk, forall_mem_map, any_eq_false, Bool.and_eq_true, bne_iff_ne, beq_iff_eq]
  refine forall₂_congr fun c _ => ?_
  by_cases ht : c = '\t' <;> simp [ht]

/-- Of several lines, nothing is left of those without ink. -/
theorem strippedAt_eq_nil_iff (hse : index = 0 → index + 1 ≠ count) :
    strippedAt count index line = [] ↔ hasInk line = false := by
  rw [← untabbed_blank_iff]
  unfold strippedAt
  extract_lets started
  have hs : (∀ c ∈ started, (c == ' ') = true) ↔ ∀ c ∈ untabbed line, (c == ' ') = true := by
    unfold started
    split
    · exact Iff.rfl
    · rw [← dropWhile_eq_nil_iff, ← dropWhile_eq_nil_iff, dropWhile_idempotent]
  split
  · next hl =>
    have hf : index ≠ 0 := fun hz => hse hz hl
    unfold started
    rw [if_neg hf, dropWhile_eq_nil_iff]
  · rw [rdropWhile_eq_nil_iff, hs]

/-! ### The last line with ink -/

theorem lastInked_cons (line : List Char) (lines : List (List Char)) :
    lastInked (line :: lines) = if lines.any hasInk then lastInked lines + 1 else 0 := by
  unfold lastInked
  rw [reverse_cons, dropWhile_append]
  have hn : lines.reverse.dropWhile (fun line => !hasInk line) = [] ↔ lines.any hasInk = false := by
    simp [dropWhile_eq_nil_iff]
  cases ha : lines.any hasInk with
  | true =>
    have hne : lines.reverse.dropWhile (fun line => !hasInk line) ≠ [] := fun heq => by simp [hn.mp heq] at ha
    have hp := length_pos_iff.mpr hne
    rw [isEmpty_eq_false_iff.mpr hne]
    simp only [Bool.false_eq_true, if_false, if_true, length_append, length_singleton]
    omega
  | false =>
    have hl := (dropWhile_sublist (fun line => !hasInk line) (l := [line])).length_le
    rw [List.isEmpty_iff.mpr (hn.mpr ha)]
    simp only [if_true, Bool.false_eq_true, if_false, length_singleton] at hl ⊢
    omega

/-! ### Joined lines -/

/-- The stripped lines from an index on of which something is left. -/
def keptFrom (count index : ℕ) (lines : List (List Char)) : List (List Char) :=
  (lines.mapIdx fun i => strippedAt count (index + i)).filter fun line => !line.isEmpty

theorem keptFrom_cons (count index : ℕ) (line : List Char) (lines : List (List Char)) :
    keptFrom count index (line :: lines) = if strippedAt count index line = [] then keptFrom count (index + 1) lines
      else strippedAt count index line :: keptFrom count (index + 1) lines := by
  have hs : (fun i => strippedAt count (index + (i + 1))) = fun i => strippedAt count (index + 1 + i) := by
    funext i
    rw [Nat.add_right_comm, Nat.add_assoc]
  rw [keptFrom, mapIdx_cons, filter_cons, hs]
  simp [keptFrom]

/-- Among several lines, something is left of those with ink. -/
theorem keptFrom_eq_nil_iff (hs : 2 ≤ count) : keptFrom count index lines = [] ↔ lines.any hasInk = false := by
  induction lines generalizing index with
  | nil => simp [keptFrom]
  | cons line lines ih =>
    have hl := @strippedAt_eq_nil_iff line count index (by omega)
    rw [keptFrom_cons, any_cons, Bool.or_eq_false_iff]
    split
    · next hn => rw [ih, hl.mp hn, eq_self, true_and]
    · next hne => simp [mt hl.mpr hne]

/-- Joining goes on from an index as the rule says, if `inked` is the last line with ink among those to come. -/
theorem joinStripped_eq_intercalate (hs : 2 ≤ count) (hi : lines.any hasInk → inked = index + lastInked lines) :
    joinStripped count inked index lines = [' '].intercalate (keptFrom count index lines) := by
  induction lines generalizing index with
  | nil => rfl
  | cons line lines ih =>
    have hli := @strippedAt_eq_nil_iff line count index (by omega)
    have hr : lines.any hasInk = true → inked = index + 1 + lastInked lines := by
      intro ha
      rw [hi (by simp [ha]), lastInked_cons, if_pos ha]
      omega
    rw [joinStripped, stripLine_eq_strippedAt, ih hr, keptFrom_cons]
    simp only [List.isEmpty_iff]
    split
    · rfl
    · next hn =>
      have hin : hasInk line := by simpa using mt hli.mpr hn
      cases ha : lines.any hasInk with
      | true =>
        -- More is to come, so a space follows this line.
        have hl : (index == inked) = false := by
          rw [hr ha, beq_eq_false_iff_ne]
          omega
        have hm : keptFrom count (index + 1) lines ≠ [] := by
          rw [Ne, keptFrom_eq_nil_iff hs, ha]
          simp
        obtain ⟨next, others, hk⟩ := exists_cons_of_ne_nil hm
        rw [hl, hk, intercalate_cons_cons]
        simp
      | false =>
        have hla : (index == inked) := by
          rw [hi (by simp [hin]), lastInked_cons, ha]
          simp
        rw [hla, (keptFrom_eq_nil_iff hs).mpr ha]
        simp

theorem keptLines_eq_keptFrom (lines : List (List Char)) : keptLines lines = keptFrom lines.length 0 lines := by
  simp [keptLines, keptFrom]

/-- **What remains of text between tags,** said without looking for the last line with ink. -/
theorem cleanJsxChars_eq_intercalate (h : '\r' ∉ cs) :
    cleanJsxChars cs = [' '].intercalate (keptLines (cs.splitOn '\n')) := by
  unfold cleanJsxChars
  rw [dropReturns_splitNewlines h, splitNewlines_eq_splitOn, keptLines_eq_keptFrom]
  generalize cs.splitOn '\n' = lines
  rcases Nat.lt_or_ge lines.length 2 with hs | hse
  · match lines, hs with
    | [], _ => rfl
    | [line], _ =>
      rw [joinStripped, joinStripped, stripLine_eq_strippedAt, keptFrom_cons]
      have hi : lastInked [line] = 0 := lastInked_cons line []
      simp only [List.isEmpty_iff, length_singleton, hi]
      split
      · rfl
      · simp [keptFrom]
  · exact joinStripped_eq_intercalate hse fun _ => (Nat.zero_add _).symm

/-! ### Texts -/

theorem intercalate_keptLines_eq_nil_iff : [' '].intercalate (keptLines lines) = [] ↔ keptLines lines = [] := by
  constructor
  · intro hn
    cases hk : keptLines lines with
    | nil => rfl
    | cons line others =>
      have hl : line ∈ keptLines lines := hk ▸ .head _
      have hne : line ≠ [] := by simpa using (mem_filter.mp hl).2
      rw [hk] at hn
      cases others with
      | nil => exact absurd (by simpa using hn) hne
      | cons next others => simp [intercalate_cons_cons] at hn
  · intro hn
    rw [hn]
    rfl

/-- Of a single line all is left, with tabs as spaces. -/
theorem keptLines_singleton (line : List Char) : keptLines [line] = if line = [] then [] else [untabbed line] := by
  cases line with
  | nil => rfl
  | cons c cs => simp [keptLines, strippedAt, untabbed]

/-- What remains is one line, which remains as it is. -/
theorem cleanJsxChars_idempotent (h : '\r' ∉ cs) : cleanJsxChars (cleanJsxChars cs) = cleanJsxChars cs := by
  refine cleanJsxChars_eq_self (fun hm => (mem_cleanJsxChars hm).1 rfl)
    (fun hm => (mem_cleanJsxChars hm).2.1 rfl) fun hm => ?_
  obtain ⟨-, -, hs | hm⟩ := mem_cleanJsxChars hm
  · cases hs
  · exact h hm

theorem cleanJsxText?_eq_ite (raw : String) : cleanJsxText? raw =
    if cleanJsxChars raw.toList = [] then none else some (String.ofList (cleanJsxChars raw.toList)) := by
  simp [cleanJsxText?]

/-- **Text between tags** follows the rule on lines: of a text without carriage returns, the stripped lines remain
of which something is left, joined by one space, and nothing if there is no such line. Of a single line all remains,
with tabs as spaces. What remains holds no breaks and no tabs, and remains if it is cleaned again. -/
theorem jsx_text_follows_rule (raw : String) (h : '\r' ∉ raw.toList) :
    (cleanJsxText? raw = if keptLines (raw.toList.splitOn '\n') = [] then none
      else some (String.ofList ([' '].intercalate (keptLines (raw.toList.splitOn '\n'))))) ∧
    ('\n' ∉ raw.toList → cleanJsxText? raw = if raw = "" then none else some (String.ofList (untabbed raw.toList))) ∧
    ∀ text, cleanJsxText? raw = some text →
      '\n' ∉ text.toList ∧ '\t' ∉ text.toList ∧ cleanJsxText? text = some text := by
  have hr : cleanJsxText? raw = if keptLines (raw.toList.splitOn '\n') = [] then none
      else some (String.ofList ([' '].intercalate (keptLines (raw.toList.splitOn '\n')))) := by
    simp only [cleanJsxText?_eq_ite, cleanJsxChars_eq_intercalate h, intercalate_keptLines_eq_nil_iff]
  refine ⟨hr, fun hf => ?_, fun text ht => ?_⟩
  · rw [hr, ← splitNewlines_eq_splitOn, splitNewlines_of_not_mem hf, keptLines_singleton]
    by_cases he : raw.toList = [] <;> simp_all
  · rw [cleanJsxText?_eq_ite] at ht
    split at ht
    · cases ht
    · next hn =>
      cases ht
      rw [cleanJsxText?_eq_ite, String.toList_ofList, cleanJsxChars_idempotent h, if_neg hn]
      exact ⟨fun hm => (mem_cleanJsxChars hm).1 rfl, fun hm => (mem_cleanJsxChars hm).2.1 rfl, rfl⟩

/-- A first line that keeps its leading space, a blank line, and a last line that keeps its trailing ones. -/
theorem jsx_text_follows_rule_lines : cleanJsxText? " Hello\t \n\t\n  big\tworld  " = some " Hello big world  " ∧
    cleanJsxText? " Hello big world  " = some " Hello big world  " := by
  have hc : cleanJsxText? " Hello\t \n\t\n  big\tworld  " = some " Hello big world  " := by decide
  exact ⟨hc, ((jsx_text_follows_rule _ (by decide)).2.2 _ hc).2.2⟩

end Polyview.Text
