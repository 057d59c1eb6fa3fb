import Mathlib.Data.List.DropRight
import Polyview.Text.Blank

/-! # Trimming

Trimming goes from the outside in. For inductions it is described from the front: a blank is dropped at the end if
nothing but blanks follows it (`trimEndChars_cons`). A text is inked when it does not start with a blank, and its ink is
the number of its characters that are not blank. -/

namespace Polyview.Text

open List

variable {c : Char} {cs lead : List Char}

/-! ### The end -/

theorem trimEndChars_cons (c : Char) (cs : List Char) :
    trimEndChars (c :: cs) = if isBlank c = true ∧ trimEndChars cs = [] then [] else c :: trimEndChars cs := by
  unfold trimEndChars dropEndWhile
  rw [reverse_cons, dropWhile_append]
  by_cases hr : cs.reverse.dropWhile isBlank = []
  · by_cases hb : isBlank c = true <;> simp [hr, hb]
  · simp [hr, List.isEmpty_iff]

theorem trimEndChars_cons_of_ne_nil (h : trimEndChars cs ≠ []) : trimEndChars (c :: cs) = c :: trimEndChars cs := by
  rw [trimEndChars_cons, if_neg fun hc => h hc.2]

theorem trimEndChars_cons_of_ink (h : isBlank c = false) : trimEndChars (c :: cs) = c :: trimEndChars cs := by
  rw [trimEndChars_cons, if_neg fun hc => by simp [h] at hc]

theorem trimEndChars_append (lead : List Char) (h : trimEndChars cs ≠ []) :
    trimEndChars (lead ++ cs) = lead ++ trimEndChars cs := by
  induction lead with
  | nil => rfl
  | cons d lead ih =>
    rw [cons_append, trimEndChars_cons_of_ne_nil, ih, cons_append]
    rw [ih]
    exact fun hn => h (append_eq_nil_iff.mp hn).2

theorem trimEndChars_append_cons (lead : List Char) (h : isBlank c = false) :
    trimEndChars (lead ++ c :: cs) = lead ++ c :: trimEndChars cs := by
  rw [trimEndChars_append lead, trimEndChars_cons_of_ink h]
  rw [trimEndChars_cons_of_ink h]
  exact cons_ne_nil _ _

theorem trimEndChars_isPrefix (cs : List Char) : trimEndChars cs <+: cs := rdropWhile_prefix isBlank cs

theorem trimEndChars_eq_nil : trimEndChars cs = [] ↔ ∀ c ∈ cs, isBlank c = true := rdropWhile_eq_nil_iff

theorem isPrefix_trimEndChars {name : List Char} (hn : name ≠ []) (hl : isBlank (name.getLast hn) = false) :
    name <+: trimEndChars cs ↔ name <+: cs := by
  refine ⟨fun h => h.trans (trimEndChars_isPrefix cs), ?_⟩
  rintro ⟨rest, rfl⟩
  rw [← dropLast_append_getLast hn, append_assoc, singleton_append, trimEndChars_append_cons _ hl]
  exact ⟨trimEndChars rest, by simp⟩

/-! ### The start -/

/-- A text that does not start with a blank. -/
def Inked (cs : List Char) : Prop := ∀ c ∈ cs.head?, isBlank c = false

instance (cs : List Char) : Decidable (Inked cs) := Option.decidableForallMem cs.head?

theorem Inked.cons (h : isBlank c = false) : Inked (c :: cs) := by
  rintro d hd
  rw [head?_cons, Option.mem_some_iff] at hd
  rw [← hd, h]

theorem Inked.append {rest : List Char} (h : Inked cs) (hr : Inked rest) : Inked (cs ++ rest) := by
  cases cs with
  | nil => exact hr
  | cons c cs => exact Inked.cons (h c rfl)

theorem Inked.of_isPrefix (h : Inked cs) (hl : lead <+: cs) : Inked lead := by
  obtain ⟨rest, rfl⟩ := hl
  cases lead with
  | nil => exact fun c hc => by cases hc
  | cons c lead => exact Inked.cons (h c rfl)

theorem trimStartChars_of_inked (h : Inked cs) : trimStartChars cs = cs := by
  cases cs with
  | nil => rfl
  | cons c cs =>
    have hc : ¬ isBlank c = true := by simpa using h c rfl
    rw [trimStartChars, dropWhile_cons_of_neg hc]

theorem trimStartChars_append (h : ∀ c ∈ lead, isBlank c) (cs : List Char) :
    trimStartChars (lead ++ cs) = trimStartChars cs :=
  dropWhile_append_of_pos h

/-! ### Both ends -/

theorem trimChars_of_inked (h : Inked cs) : trimChars cs = trimEndChars cs := by
  rw [trimChars, trimStartChars_of_inked h]

theorem trimStartChars_trimEndChars (cs : List Char) : trimStartChars (trimEndChars cs) = trimChars cs := by
  induction cs with
  | nil => rfl
  | cons c cs ih =>
    by_cases hb : isBlank c = true
    · have hs : trimChars (c :: cs) = trimChars cs := by
        rw [trimChars, trimStartChars, dropWhile_cons_of_pos hb]
        rfl
      rw [hs, ← ih]
      by_cases hn : trimEndChars cs = []
      · rw [trimEndChars_cons, if_pos ⟨hb, hn⟩, hn]
      · rw [trimEndChars_cons_of_ne_nil hn, trimStartChars, dropWhile_cons_of_pos hb]
        rfl
    · have hi : isBlank c = false := by simpa using hb
      rw [trimChars_of_inked (Inked.cons hi), trimEndChars_cons_of_ink hi, trimStartChars_of_inked (Inked.cons hi)]

theorem trimEndChars_trimEndChars (cs : List Char) : trimEndChars (trimEndChars cs) = trimEndChars cs :=
  rdropWhile_idempotent isBlank cs

theorem trimChars_trimEndChars (cs : List Char) : trimChars (trimEndChars cs) = trimChars cs := by
  rw [← trimStartChars_trimEndChars, trimEndChars_trimEndChars, trimStartChars_trimEndChars]

theorem trimChars_trimChars (cs : List Char) : trimChars (trimChars cs) = trimChars cs := by
  have hs : trimStartChars (trimStartChars cs) = trimStartChars cs := dropWhile_idempotent isBlank cs
  rw [← trimStartChars_trimEndChars, trimChars, trimEndChars_trimEndChars, trimStartChars_trimEndChars, trimChars, hs]

/-! ### Ink -/

theorem ink_append (lead cs : List Char) : ink (lead ++ cs) = ink lead + ink cs := countP_append

theorem ink_cons (h : isBlank c = false) (cs : List Char) : ink (c :: cs) = ink cs + 1 :=
  countP_cons_of_pos (by simp [h])

theorem ink_dropWhile (cs : List Char) : ink (cs.dropWhile isBlank) = ink cs := by
  induction cs with
  | nil => rfl
  | cons c cs ih =>
    by_cases hb : isBlank c = true
    · rw [dropWhile_cons_of_pos hb, ih, ink, ink, countP_cons_of_neg (by simp [hb])]
    · rw [dropWhile_cons_of_neg hb]

theorem ink_trimChars (cs : List Char) : ink (trimChars cs) = ink cs := by
  have hr : ∀ ds : List Char, ink ds.reverse = ink ds := fun ds => countP_reverse
  rw [trimChars, trimEndChars, dropEndWhile, hr, ink_dropWhile, hr, trimStartChars, ink_dropWhile]

theorem ink_le_length (cs : List Char) : ink cs ≤ cs.length := countP_le_length

end Polyview.Text
