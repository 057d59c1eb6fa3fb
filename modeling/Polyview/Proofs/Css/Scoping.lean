import Polyview.Proofs.Css.Sheet

/-! # Scoping a sheet

Scoping a stylesheet goes by its rules: every style rule, at the top or in the blocks of at-rules that hold rules, has
its selectors confined, and all else is kept (`scopeStyles_follows_rules`). This holds for sheets without comments
between their rules in which no backslash hides a delimiter. A delimiter that is escaped outside a string is a delimiter
to the reader (`escaped_semicolon_ends_rule`). -/

namespace Polyview.Css

open List Text

/-! ### What scoping should do -/

/-- The part of a selector in front of its first `::`. -/
def beforePseudo : List Char → List Char
  | [] => []
  | ':' :: ':' :: _ => []
  | c :: cs => c :: beforePseudo cs

/-- The part of a selector from its first `::` on. -/
def pseudoOf (text : List Char) : List Char := text.drop (beforePseudo text).length

/-- A selector confined by another one. A pseudo-element stays behind the parentheses, and there are none of them if
nothing else is selected. -/
def confinedSelector (lead text : List Char) : List Char :=
  let base := trimChars (beforePseudo (trimChars text))
  let pseudo := pseudoOf (trimChars text)
  if base = [] then lead ++ pseudo else lead ++ ":is(".toList ++ base ++ ")".toList ++ pseudo

namespace Sheet

/-- The texts of the rules of a sheet, with the selectors of all style rules confined. -/
def confined (lead : List Char) : Sheet → List (List Char)
  | done _ => []
  | statement _ prelude rest => (prelude.text ++ [';']) :: rest.confined lead
  | style _ first others body rest =>
    (joinChars ", ".toList ((first :: others).map fun s => confinedSelector lead s.text) ++
      [' ', '{'] ++ body.text ++ ['}']) :: rest.confined lead
  | group _ prelude inside rest =>
    (trimChars prelude.text ++ [' ', '{', ' '] ++ joinChars [' '] (inside.confined lead) ++ [' ', '}']) ::
      rest.confined lead
  | block _ prelude body rest => (prelude.text ++ ['{'] ++ body.text ++ ['}']) :: rest.confined lead

/-- Only blanks stand between the rules. -/
def Spaced : Sheet → Prop
  | done gap => gap.remarks = []
  | statement gap _ rest => gap.remarks = [] ∧ rest.Spaced
  | style gap _ _ _ rest => gap.remarks = [] ∧ rest.Spaced
  | group gap _ inside rest => gap.remarks = [] ∧ inside.Spaced ∧ rest.Spaced
  | block gap _ _ rest => gap.remarks = [] ∧ rest.Spaced

instance decidableSpaced : (s : Sheet) → Decidable s.Spaced
  | done gap => inferInstanceAs (Decidable (gap.remarks = []))
  | statement gap _ rest =>
    have := decidableSpaced rest
    inferInstanceAs (Decidable (gap.remarks = [] ∧ _))
  | style gap _ _ _ rest =>
    have := decidableSpaced rest
    inferInstanceAs (Decidable (gap.remarks = [] ∧ _))
  | group gap _ inside rest =>
    have := decidableSpaced inside
    have := decidableSpaced rest
    inferInstanceAs (Decidable (gap.remarks = [] ∧ _ ∧ _))
  | block gap _ _ rest =>
    have := decidableSpaced rest
    inferInstanceAs (Decidable (gap.remarks = [] ∧ _))

end Sheet

/-! ### What scoping does -/

theorem splitAtFirst?_pseudo (text : List Char) : splitAtFirst? [':', ':'] text =
    if pseudoOf text = [] then none else some (beforePseudo text, pseudoOf text) := by
  unfold pseudoOf
  fun_induction beforePseudo text with
  | case1 => rfl
  | case2 cs => simp [splitAtFirst?, List.isPrefixOf]
  | case3 c cs hp ih =>
    have hf : List.isPrefixOf [':', ':'] (c :: cs) = false := by
      rw [Bool.eq_false_iff]
      intro hl
      obtain ⟨rest, hr⟩ := isPrefixOf_iff_prefix.mp hl
      simp only [cons_append, nil_append, List.cons.injEq] at hr
      exact hp rest hr.1.symm hr.2.symm
    rw [splitAtFirst?, hf, ih, length_cons, drop_succ_cons]
    by_cases hn : cs.drop (beforePseudo cs).length = []
    · simp [hn]
    · simp [hn]

theorem beforePseudo_append (text : List Char) : beforePseudo text ++ pseudoOf text = text := by
  unfold pseudoOf
  fun_induction beforePseudo text with
  | case1 => rfl
  | case2 cs => rfl
  | case3 c cs _ ih => simpa using ih

theorem readSelector_eq (text : List Char) :
    readSelector text = ⟨trimChars (beforePseudo (trimChars text)), pseudoOf (trimChars text)⟩ := by
  simp only [readSelector, splitAtFirst?_pseudo]
  by_cases hp : pseudoOf (trimChars text) = []
  · have hb : beforePseudo (trimChars text) = trimChars text := by
      rw [← append_nil (beforePseudo _), ← hp, beforePseudo_append]
    rw [if_pos hp, hp, hb, trimChars_trimChars]
  · rw [if_neg hp]

theorem scoped_readSelector (lead text : List Char) : (readSelector text).scoped lead = confinedSelector lead text := by
  rw [readSelector_eq, Selector.scoped, confinedSelector]
  simp [List.isEmpty_iff]

namespace Sheet

theorem scopedRules_reading {s : Sheet} (h : s.Spaced) (lead : List Char) :
    scopedRules lead s.reading = s.confined lead := by
  induction s with
  | done gap =>
    have hr : gap.remarks = [] := h
    rw [reading, if_pos hr]
    rfl
  | statement gap prelude rest ih =>
    rw [reading, h.1, scopedRules, ih h.2]
    rfl
  | style gap first others body rest ih =>
    rw [reading, h.1, scopedRules, ih h.2, remarked, Rule.scoped, map_map]
    simp [confined, Function.comp_def, scoped_readSelector]
  | group gap prelude inside rest ihinside ihrest =>
    rw [reading, if_pos h.1, scopedRules, ihrest h.2.2, Rule.scoped, ihinside h.2.1]
    simp [confined]
  | block gap prelude body rest ih =>
    rw [reading, if_pos h.1, scopedRules, ih h.2, Rule.scoped]
    simp [confined]

end Sheet

/-- **Scoping goes by the rules of a stylesheet.** The selectors of every style rule are confined, whatever at-rules
hold it and whatever delimiters its strings and brackets hide, and everything else is kept as it is written. -/
theorem scopeStyles_follows_rules (scope : String) (s : Sheet) (h : s.WellFormed .ordinary) (hspaced : s.Spaced) :
    scopeStyles scope (String.ofList s.text) =
      String.ofList (joinChars [' '] (s.confined (scopeSelector scope.toList))) := by
  rw [scopeStyles, String.toList_ofList, Sheet.rulesOf_text h, Sheet.scopedRules_reading hspaced]

/-- `@import url("a;b"); @media (min-width: 9px) { a[title="},{"]::after , ::before { color: red } }` and
`@page { margin: 0 }` -/
def nestedSheet : Sheet :=
  .statement {} (.behind "@import url".toList (.nested .round (.quoted '"' "a;b".toList .nil) .nil))
    (.group { blanks := [' '] }
      (.behind "@media ".toList (.nested .round (.behind "min-width: 9px".toList .nil) (.sign ' ' .nil)))
      (.style { blanks := [' '] }
        (.sign 'a' (.nested .square (.behind "title=".toList (.quoted '"' "\x7d,\x7b".toList .nil))
          (.behind "::after ".toList .nil)))
        [.behind " ::before ".toList .nil] (.behind " color: red ".toList .nil) (.done { blanks := [' '] }))
      (.block { blanks := [' '] } (.behind "@page ".toList .nil) (.behind " margin: 0 ".toList .nil) (.done {})))

/-- Both selectors of the style rule in the block are confined. -/
theorem nestedSheet_scoped : nestedSheet.WellFormed .ordinary ∧ nestedSheet.Spaced ∧
    scopeStyles "s" (String.ofList nestedSheet.text) = "@import url(\"a;b\"); @media (min-width: 9px) \x7b " ++
      ":where([s], [s] *):is(a[title=\"\x7d,\x7b\"])::after, :where([s], [s] *)::before \x7b color: red \x7d \x7d " ++
      "@page \x7b margin: 0 \x7d" := by
  have hw : nestedSheet.WellFormed .ordinary := by decide
  have hs : nestedSheet.Spaced := by decide
  refine ⟨hw, hs, ?_⟩
  rw [scopeStyles_follows_rules "s" nestedSheet hw hs]
  decide +kernel

/-- `.a\;b { color: red; }` -/
def escapedSheet : Sheet :=
  .style {} (.behind ".a".toList (.escape ';' (.behind "b ".toList .nil))) [] (.behind " color: red; ".toList .nil)
    (.done {})

/-- An escaped semicolon is part of a selector, but the reader takes it for the end of a rule. -/
theorem escaped_semicolon_ends_rule : escapedSheet.WellFormed .escapes ∧ escapedSheet.Spaced ∧
    String.ofList (joinChars [' '] (escapedSheet.confined (scopeSelector "s".toList))) =
      ":where([s], [s] *):is(.a\\;b) \x7b color: red; \x7d" ∧
    scopeStyles "s" (String.ofList escapedSheet.text) = ".a\\; :where([s], [s] *):is(b) \x7b color: red; \x7d" := by
  exact ⟨by decide, by decide, by decide +kernel, by decide +kernel⟩

end Polyview.Css
