/-! # Byte lengths

Offsets into a text count the bytes of its UTF-8 form. An offset is usable only where a character
starts, so cutting a text at an offset can fail. -/

namespace Polyview.Text

/-- The number of bytes of the UTF-8 form of a text. -/
def byteLength : List Char → Nat
  | [] => 0
  | c :: cs => c.utf8Size + byteLength cs

/-- Cuts a text behind its first `n` bytes, provided that a character ends there. -/
def splitBytes? : Nat → List Char → Option (List Char × List Char)
  | 0, cs => some ([], cs)
  | _ + 1, [] => none
  | n + 1, c :: cs =>
    if c.utf8Size ≤ n + 1 then
      (splitBytes? (n + 1 - c.utf8Size) cs).map fun (before, after) => (c :: before, after)
    else none

@[simp]
theorem byteLength_nil : byteLength [] = 0 := rfl

@[simp]
theorem byteLength_cons (c : Char) (cs : List Char) : byteLength (c :: cs) = c.utf8Size + byteLength cs := rfl

@[simp]
theorem byteLength_append (a b : List Char) : byteLength (a ++ b) = byteLength a + byteLength b := by
  induction a with
  | nil => simp
  | cons c cs ih => simp [ih, Nat.add_assoc]

/-- Cutting a text behind a first part of it gives the two parts back. -/
theorem splitBytes?_byteLength (a b : List Char) : splitBytes? (byteLength a) (a ++ b) = some (a, b) := by
  induction a with
  | nil => cases b <;> rfl
  | cons c cs ih =>
    have pos := c.utf8Size_pos
    obtain ⟨n, hn⟩ : ∃ n, byteLength (c :: cs) = n + 1 :=
      ⟨byteLength (c :: cs) - 1, by simp only [byteLength_cons]; omega⟩
    have rest : n + 1 - c.utf8Size = byteLength cs := by rw [← hn]; simp
    rw [hn, List.cons_append, splitBytes?, if_pos (by rw [← hn]; simp), rest, ih]
    rfl

/-- The two parts of a cut make up the text, and the first has the asked number of bytes. -/
theorem eq_append_of_splitBytes? {n : Nat} {cs a b : List Char} (h : splitBytes? n cs = some (a, b)) :
    cs = a ++ b ∧ byteLength a = n := by
  induction cs generalizing n a b with
  | nil =>
    cases n with
    | zero => cases h; simp
    | succ n => cases h
  | cons c cs ih =>
    cases n with
    | zero => cases h; simp
    | succ n =>
      rw [splitBytes?] at h
      split at h
      case isTrue fits =>
        obtain ⟨⟨a', b'⟩, cut, eq⟩ := Option.map_eq_some_iff.1 h
        obtain ⟨rfl, len⟩ := ih cut
        cases eq
        exact ⟨rfl, by simp only [byteLength_cons]; omega⟩
      case isFalse => cases h

end Polyview.Text
