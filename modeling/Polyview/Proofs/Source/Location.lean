import Mathlib.Data.List.DropRight
import Polyview.Proofs.Source.Offset
import Polyview.Source.Location

/-! # Locations of offsets

What has been read so far decides a location: its line is told by the newlines, its column by what follows the last of
them (`Location.after_eq`). Both counts are kept in 32 bits, which is enough for every offset that is itself below the
largest number of 32 bits (`Location.after_of_lt`). Of two such offsets, the later one has the later location
(`locations_ordered`). -/

namespace Polyview

open List Text

/-- A location is on an earlier line than another, or on the same line and further left. -/
def Location.Before (first second : Location) : Prop :=
  first.line < second.line ∨ first.line = second.line ∧ first.column < second.column

/-- The characters of a text behind its last newline. -/
def lastLine (text : List Char) : List Char := text.rtakeWhile (· != '\n')

theorem length_le_byteLength (text : List Char) : text.length ≤ byteLength text := by
  induction text with
  | nil => exact Nat.le_refl 0
  | cons c text ih =>
    have := c.utf8Size_pos
    rw [byteLength_cons, length_cons]
    omega

namespace Location

theorem nextCount_mod (n : ℕ) : nextCount ((n + 1) % UInt32.size) = (n + 1 + 1) % UInt32.size := by
  rw [nextCount, Nat.mod_add_mod]

theorem after_eq (text : List Char) :
    after text = ⟨(text.count '\n' + 1) % UInt32.size, ((lastLine text).length + 1) % UInt32.size⟩ := by
  induction text using List.reverseRecOn with
  | nil => rfl
  | append_singleton text c ih =>
    have hs : after (text ++ [c]) = (after text).advance c := foldl_concat ..
    rw [hs, ih, advance, lastLine, lastLine, rtakeWhile_concat, count_append]
    by_cases hc : c = '\n'
    · simpa [hc] using nextCount_mod _
    · simpa [hc] using nextCount_mod _

/-- The counts up to an offset are no larger than the offset. -/
theorem after_of_lt {text : List Char} (h : byteLength text + 1 < UInt32.size) :
    after text = ⟨text.count '\n' + 1, (lastLine text).length + 1⟩ := by
  have hle := length_le_byteLength text
  have hl : text.count '\n' ≤ text.length := count_le_length
  have hc : (lastLine text).length ≤ text.length := (rtakeWhile_suffix _ _).length_le
  rw [after_eq, Nat.mod_eq_of_lt (by omega), Nat.mod_eq_of_lt (by omega)]

theorem ofOffset?_byteLength (before rest : List Char) :
    ofOffset? (before ++ rest) (byteLength before) = some (after before) := by
  rw [ofOffset?, byteLength_append, Nat.min_eq_left (Nat.le_add_right _ _), splitBytes?_byteLength]
  rfl

/-- Reading on moves a location forward: to a later line, or to a later column of the same. -/
theorem before_append {text more : List Char} (hm : more ≠ []) (h : byteLength (text ++ more) + 1 < UInt32.size) :
    (after text).Before (after (text ++ more)) := by
  have hlt : byteLength text + 1 < UInt32.size := by
    rw [byteLength_append] at h
    omega
  rw [after_of_lt hlt, after_of_lt h, Before, count_append]
  dsimp only
  by_cases hb : '\n' ∈ more
  · have := count_pos_iff.mpr hb
    exact .inl (by omega)
  · have hl : lastLine (text ++ more) = lastLine text ++ more := by
      have ha : ∀ c ∈ more.reverse, (c != '\n') = true := by
        intro c hc
        rw [bne_iff_ne]
        rintro rfl
        exact hb (mem_reverse.mp hc)
      rw [lastLine, lastLine, List.rtakeWhile, List.rtakeWhile, reverse_append,
        takeWhile_append_of_pos ha, reverse_append, reverse_reverse]
    have := length_pos_iff.mpr hm
    rw [hl, count_eq_zero_of_not_mem hb, length_append]
    exact .inr ⟨rfl, by omega⟩

end Location

/-- **Locations come in the order of the offsets**, with lines and columns counted from one, for all offsets whose
counts fit 32 bits. Behind its end, a source has the location of its end. -/
theorem locations_ordered (source : List Char) :
    (∀ before rest, source = before ++ rest → byteLength before + 1 < UInt32.size →
      Location.ofOffset? source (byteLength before) = some ⟨before.count '\n' + 1, (lastLine before).length + 1⟩) ∧
      (∀ a b, Boundary source a → Boundary source b → a < b → b + 1 < UInt32.size → ∃ first second,
        Location.ofOffset? source a = some first ∧ Location.ofOffset? source b = some second ∧ first.Before second) ∧
      ∀ offset, byteLength source ≤ offset →
        Location.ofOffset? source offset = Location.ofOffset? source (byteLength source) := by
  refine ⟨?_, ?_, fun offset he => ?_⟩
  · rintro before rest rfl hsi
    rw [Location.ofOffset?_byteLength, Location.after_of_lt hsi]
  · rintro _ _ ⟨text, hf⟩ ⟨rest, hs⟩ hl hbo
    obtain ⟨between, rfl, hsi⟩ := hf.exists_takes hs (Nat.le_of_lt hl)
    obtain ⟨before, rfl, rfl⟩ := hf
    have hb : between ≠ [] := by
      rintro rfl
      rw [byteLength_nil] at hsi
      omega
    obtain ⟨front, heq, rfl⟩ := hs
    rw [← append_assoc] at heq ⊢
    obtain rfl := append_cancel_right heq
    refine ⟨_, _, ?_, Location.ofOffset?_byteLength .., Location.before_append hb hbo⟩
    rw [append_assoc, Location.ofOffset?_byteLength]
  · rw [Location.ofOffset?, Location.ofOffset?, Nat.min_eq_right he, Nat.min_self]

/-- Two places on the second line, behind a character of two bytes. -/
theorem locations_ordered_accent : ∃ first second, Location.ofOffset? "a\né\nb".toList 2 = some first ∧
    Location.ofOffset? "a\né\nb".toList 4 = some second ∧ first.Before second := by
  refine (locations_ordered "a\né\nb".toList).2.1 2 4 ⟨"é\nb".toList, "a\n".toList, rfl, rfl⟩ ?_ (by decide) (by decide)
  exact ⟨"\nb".toList, "a\né".toList, rfl, rfl⟩

end Polyview
