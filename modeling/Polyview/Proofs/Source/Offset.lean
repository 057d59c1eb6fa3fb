import Mathlib.Data.List.Basic
import Polyview.Source.Span

/-! # Offsets of a text

Offsets count bytes, and only some of them lie between characters. `Follows source offset rest` says that
the text `rest` starts at an offset; an offset at which a text starts is a *boundary*. -/

namespace Polyview

open Text

/-- What stands behind an offset of a source. -/
def Follows (source : List Char) (offset : ℕ) (rest : List Char) : Prop :=
  ∃ before, source = before ++ rest ∧ byteLength before = offset

/-- An offset that lies between two characters, or at an end of the source. -/
def Boundary (source : List Char) (offset : ℕ) : Prop := ∃ rest, Follows source offset rest

/-- A text takes up its first `size` bytes, and goes on with `rest`. -/
def Takes (text : List Char) (size : ℕ) (rest : List Char) : Prop :=
  ∃ taken, text = taken ++ rest ∧ size = byteLength taken

variable {source rest : List Char} {n m : ℕ}

theorem Follows.boundary (h : Follows source n rest) : Boundary source n := ⟨rest, h⟩

theorem follows_zero (source : List Char) : Follows source 0 source := ⟨[], rfl, rfl⟩

theorem boundary_zero (source : List Char) : Boundary source 0 := ⟨source, follows_zero source⟩

theorem boundary_byteLength (source : List Char) : Boundary source (byteLength source) := ⟨[], source, by simp, rfl⟩

theorem Boundary.le_byteLength (h : Boundary source n) : n ≤ byteLength source := by
  obtain ⟨rest, before, rfl, rfl⟩ := h
  rw [byteLength_append]
  exact Nat.le_add_right _ _

/-! ### Taking from a text -/

theorem takes_zero (text : List Char) : Takes text 0 text := ⟨[], rfl, rfl⟩

theorem takes_append (taken rest : List Char) : Takes (taken ++ rest) (byteLength taken) rest := ⟨taken, rfl, rfl⟩

theorem Takes.cons {text : List Char} (c : Char) (h : Takes text n rest) :
    Takes (c :: text) (n + c.utf8Size) rest := by
  obtain ⟨taken, rfl, rfl⟩ := h
  exact ⟨c :: taken, rfl, by simp [Nat.add_comm]⟩

theorem Takes.trans {text middle : List Char} (h : Takes text n middle) (h' : Takes middle m rest) :
    Takes text (n + m) rest := by
  obtain ⟨taken, rfl, rfl⟩ := h
  obtain ⟨more, rfl, rfl⟩ := h'
  exact ⟨taken ++ more, by simp, by simp⟩

theorem Follows.takes {text : List Char} (h : Follows source n text) (h' : Takes text m rest) :
    Follows source (n + m) rest := by
  obtain ⟨before, rfl, rfl⟩ := h
  obtain ⟨taken, rfl, rfl⟩ := h'
  exact ⟨before ++ taken, by simp, by simp⟩

/-! ### Cutting at offsets -/

theorem byteLength_eq_zero {cs : List Char} : byteLength cs = 0 ↔ cs = [] := by
  cases cs with
  | nil => simp
  | cons c cs =>
    have := c.utf8Size_pos
    simp only [byteLength_cons, reduceCtorEq, iff_false]
    omega

theorem Follows.exists_takes {text : List Char} (h : Follows source n text) (h' : Follows source m rest)
    (hl : n ≤ m) : Takes text (m - n) rest := by
  obtain ⟨before, rfl, rfl⟩ := h
  obtain ⟨before', heq, rfl⟩ := h'
  rcases List.append_eq_append_iff.mp heq with ⟨mid, rfl, rfl⟩ | ⟨mid, rfl, rfl⟩
  · exact ⟨mid, rfl, by simp⟩
  · rw [byteLength_append] at hl
    have hm : mid = [] := byteLength_eq_zero.mp (by omega)
    subst hm
    exact ⟨[], by simp, by simp⟩

theorem Follows.unique {rest' : List Char} (h : Follows source n rest) (h' : Follows source n rest') :
    rest = rest' := by
  obtain ⟨taken, rfl, ht⟩ := h.exists_takes h' (Nat.le_refl n)
  rw [Nat.sub_self] at ht
  rw [byteLength_eq_zero.mp ht.symm]
  rfl

end Polyview
