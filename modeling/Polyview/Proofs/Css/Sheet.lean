import Polyview.Proofs.Css.Stretch

/-! # Stylesheets as written

A sheet is a stylesheet given by its rules, with what stands between them: statements, style rules, at-rules whose
blocks hold rules again, to any depth, and other at-rules with a block. `Sheet.rulesOf_text` tells which rules the reader
finds in the text of a sheet. It finds the rules of the sheet, with one exception: an at-rule with a block is taken for
a style rule if a comment stands in front of it. -/

namespace Polyview.Css

open List Text

variable {first : Stretch} {others : List Stretch}

/-! ### Sheets -/

/-- A comment and the blanks behind it. -/
structure Remark where
  inside : List Char
  blanks : List Char

/-- What stands in front of a rule. -/
structure Gap where
  blanks : List Char := []
  remarks : List Remark := []

/-- A stretch behind remarks. -/
def remarked : List Remark → Stretch → Stretch
  | [], p => p
  | remark :: rest, p => .comment remark.inside (.behind remark.blanks (remarked rest p))

/-- A stretch behind a gap. -/
def Gap.before (gap : Gap) (p : Stretch) : Stretch := .behind gap.blanks (remarked gap.remarks p)

/-- Selectors with commas between them. -/
def selectorList : Stretch → List Stretch → Stretch
  | first, [] => first
  | first, second :: rest => first.append (.sign ',' (selectorList second rest))

/-- A stylesheet, rule by rule. -/
inductive Sheet
  /-- The end of the rules. -/
  | done (gap : Gap)
  /-- An at-rule that ends with a semicolon. -/
  | statement (gap : Gap) (prelude : Stretch) (rest : Sheet)
  /-- A style rule, with its selectors. -/
  | style (gap : Gap) (first : Stretch) (others : List Stretch) (body : Stretch) (rest : Sheet)
  /-- An at-rule whose block holds rules. -/
  | group (gap : Gap) (prelude : Stretch) (inside rest : Sheet)
  /-- Another at-rule with a block. -/
  | block (gap : Gap) (prelude body : Stretch) (rest : Sheet)

namespace Sheet

def stretch : Sheet → Stretch
  | done gap => gap.before .nil
  | statement gap prelude rest => gap.before (prelude.append (.sign ';' rest.stretch))
  | style gap first others body rest =>
    gap.before ((selectorList first others).append (.nested .curly body rest.stretch))
  | group gap prelude inside rest => gap.before (prelude.append (.nested .curly inside.stretch rest.stretch))
  | block gap prelude body rest => gap.before (prelude.append (.nested .curly body rest.stretch))

def text (s : Sheet) : List Char := s.stretch.text

end Sheet

/-! ### Well-formed sheets -/

/-- A remark is a comment and blanks. -/
def Remark.WellFormed (remark : Remark) : Prop := IsRemark remark.inside ∧ ∀ c ∈ remark.blanks, isBlank c = true

instance (remark : Remark) : Decidable remark.WellFormed :=
  have : Decidable (∀ c ∈ remark.blanks, isBlank c = true) := List.decidableBAll _ remark.blanks
  inferInstanceAs (Decidable (_ ∧ _))

/-- A gap holds blanks and remarks. -/
def Gap.WellFormed (gap : Gap) : Prop :=
  (∀ c ∈ gap.blanks, isBlank c = true) ∧ ∀ remark ∈ gap.remarks, remark.WellFormed

instance (gap : Gap) : Decidable gap.WellFormed :=
  have : Decidable (∀ c ∈ gap.blanks, isBlank c = true) := List.decidableBAll _ gap.blanks
  inferInstanceAs (Decidable (_ ∧ _))

/-- The at-rules whose blocks hold rules are those whose prelude starts so. -/
def StartsGroup (prelude : List Char) : Prop :=
  "@media".toList <+: prelude ∨ "@supports".toList <+: prelude ∨ "@container".toList <+: prelude ∨
    "@layer".toList <+: prelude

instance (prelude : List Char) : Decidable (StartsGroup prelude) := inferInstanceAs (Decidable (_ ∨ _ ∨ _ ∨ _))

/-- What stands in front of the semicolon or the block of an at-rule. -/
def Stretch.IsAtPrelude (b : Backslash) (prelude : Stretch) : Prop :=
  prelude.text.head? = some '@' ∧ prelude.WellFormed b [';', '{']

instance (b : Backslash) (prelude : Stretch) : Decidable (prelude.IsAtPrelude b) := inferInstanceAs (Decidable (_ ∧ _))

/-- The selectors of a style rule. The blanks in front of the first one belong to the gap. -/
def AreSelectors (b : Backslash) (first : Stretch) (others : List Stretch) : Prop :=
  (Inked first.text ∧ first.text.head? ≠ some '@') ∧ ∀ s ∈ first :: others, s.WellFormed b [',', ';', '{']

instance (b : Backslash) (first : Stretch) (others : List Stretch) : Decidable (AreSelectors b first others) :=
  inferInstanceAs (Decidable (_ ∧ _))

namespace Sheet

/-- All gaps, preludes, selectors and bodies are what they should be. -/
def WellFormed (b : Backslash) : Sheet → Prop
  | done gap => gap.WellFormed
  | statement gap prelude rest => gap.WellFormed ∧ prelude.IsAtPrelude b ∧ rest.WellFormed b
  | style gap first others body rest =>
    gap.WellFormed ∧ AreSelectors b first others ∧ body.WellFormed b [] ∧ rest.WellFormed b
  | group gap prelude inside rest =>
    gap.WellFormed ∧ (prelude.IsAtPrelude b ∧ StartsGroup prelude.text) ∧ inside.WellFormed b ∧ rest.WellFormed b
  | block gap prelude body rest =>
    gap.WellFormed ∧ (prelude.IsAtPrelude b ∧ ¬ StartsGroup prelude.text) ∧ body.WellFormed b [] ∧ rest.WellFormed b

instance decidableWellFormed (b : Backslash) : (s : Sheet) → Decidable (s.WellFormed b)
  | done gap => inferInstanceAs (Decidable gap.WellFormed)
  | statement _ _ rest =>
    have := decidableWellFormed b rest
    inferInstanceAs (Decidable (_ ∧ _ ∧ _))
  | style _ _ _ _ rest =>
    have := decidableWellFormed b rest
    inferInstanceAs (Decidable (_ ∧ _ ∧ _ ∧ _))
  | group _ _ inside rest =>
    have := decidableWellFormed b inside
    have := decidableWellFormed b rest
    inferInstanceAs (Decidable (_ ∧ _ ∧ _ ∧ _))
  | block _ _ _ rest =>
    have := decidableWellFormed b rest
    inferInstanceAs (Decidable (_ ∧ _ ∧ _ ∧ _))

end Sheet

/-! ### Sheets are well-formed stretches -/

variable {b : Backslash} {p q : Stretch} {stops : List Char} {gap : Gap} {remarks : List Remark}

theorem behind_wellFormed {blanks : List Char} (hb : ∀ c ∈ blanks, isBlank c)
    (hsp : ∀ c ∈ stops, isBlank c = false) (h : p.WellFormed b stops) :
    (Stretch.behind blanks p).WellFormed b stops := by
  induction blanks with
  | nil => exact h
  | cons c blanks ih =>
    have hc : isBlank c := hb c mem_cons_self
    have hn : ∀ d : Char, isBlank d = false → c ≠ d := by
      rintro d hd rfl
      simp [hd] at hc
    have hr := ih fun d hd => hb d (mem_cons_of_mem c hd)
    refine ⟨⟨fun hq => ?_, fun hbk => ?_, fun hst => ?_⟩, fun hs => ?_, fun hs => ?_, hr⟩
    · exact hn c (Stretch.isBlank_quote hq) rfl
    · exact hn c (Stretch.isBlank_bracket hbk) rfl
    · exact hn c (hsp c hst) rfl
    · exact absurd hs (hn _ (by decide))
    · exact absurd hs (hn _ (by decide))

theorem remarked_wellFormed (hrm : ∀ remark ∈ remarks, remark.WellFormed) (hs : ∀ c ∈ stops, isBlank c = false)
    (h : p.WellFormed b stops) : (remarked remarks p).WellFormed b stops := by
  induction remarks with
  | nil => exact h
  | cons remark rest ih =>
    have hre := hrm remark mem_cons_self
    exact ⟨hre.1, behind_wellFormed hre.2 hs (ih fun r hr => hrm r (mem_cons_of_mem remark hr))⟩

theorem Gap.before_wellFormed (hg : gap.WellFormed) (hs : ∀ c ∈ stops, isBlank c = false)
    (h : p.WellFormed b stops) : (gap.before p).WellFormed b stops :=
  behind_wellFormed hg.1 hs (remarked_wellFormed hg.2 hs h)

theorem Stretch.WellFormed.separated {c : Char} (hc : c = ',' ∨ c = ';') (hso : c ∉ stops) (hp : p.WellFormed b stops)
    (hq : q.WellFormed b stops) : (p.append (.sign c q)).WellFormed b stops := by
  have hs : (c ∉ quotes ∧ c ∉ brackets) ∧ c ≠ '\\' ∧ c ≠ '/' ∧ c ≠ '*' := by rcases hc with rfl | rfl <;> decide
  obtain ⟨⟨hqt, hb⟩, hbs, hsl, hst⟩ := hs
  refine hp.append ⟨⟨hqt, hb, hso⟩, fun h => absurd h hbs, fun h => absurd h hsl, hq⟩ ?_
  simpa [Stretch.text] using hst

theorem Stretch.WellFormed.braced {inside : Stretch} (hp : p.WellFormed b stops) (hi : inside.WellFormed b [])
    (hq : q.WellFormed b []) : (p.append (.nested .curly inside q)).WellFormed b [] := by
  refine (hp.mono (nil_subset stops)).append ⟨not_mem_nil, hi, hq⟩ ?_
  simp [Stretch.text, Bracket.opening]

theorem selectorList_wellFormed (h : ∀ s ∈ first :: others, s.WellFormed b [',', ';', '{']) :
    (selectorList first others).WellFormed b [';', '{'] := by
  induction others generalizing first with
  | nil => exact (h first mem_cons_self).mono (by simp)
  | cons second others ih =>
    have hf : first.WellFormed b [';', '{'] := (h first mem_cons_self).mono (by simp)
    exact hf.separated (.inl rfl) (by decide) (ih fun s hs => h s (mem_cons_of_mem first hs))

theorem Sheet.stretch_wellFormed {s : Sheet} (h : s.WellFormed b) : s.stretch.WellFormed b [] := by
  have hs : ∀ c ∈ ([] : List Char), isBlank c = false := fun c hc => absurd hc not_mem_nil
  induction s with
  | done gap => exact Gap.before_wellFormed h hs trivial
  | statement gap prelude rest ih =>
    obtain ⟨hg, ⟨-, hp⟩, hr⟩ := h
    have hp := hp.mono (nil_subset _)
    exact Gap.before_wellFormed hg hs (hp.separated (.inr rfl) not_mem_nil (ih hr))
  | style gap first others body rest ih =>
    obtain ⟨hg, ⟨-, hse⟩, hb, hr⟩ := h
    exact Gap.before_wellFormed hg hs ((selectorList_wellFormed hse).braced hb (ih hr))
  | group gap prelude inside rest ihinside ihrest =>
    obtain ⟨hg, ⟨⟨-, hp⟩, -⟩, hi, hr⟩ := h
    exact Gap.before_wellFormed hg hs (hp.braced (ihinside hi) (ihrest hr))
  | block gap prelude body rest ih =>
    obtain ⟨hg, ⟨⟨-, hp⟩, -⟩, hb, hr⟩ := h
    exact Gap.before_wellFormed hg hs (hp.braced hb (ih hr))

/-! ### Trimmed sheets -/

/-- A gap without its first blanks. -/
def Gap.dropBlanks (gap : Gap) : Gap := { gap with blanks := [] }

/-- A sheet without its first blanks. -/
def Sheet.dropBlanks : Sheet → Sheet
  | done gap => done gap.dropBlanks
  | statement gap prelude rest => statement gap.dropBlanks prelude rest
  | style gap first others body rest => style gap.dropBlanks first others body rest
  | group gap prelude inside rest => group gap.dropBlanks prelude inside rest
  | block gap prelude body rest => block gap.dropBlanks prelude body rest

/-- What stands in front of the first rule. -/
def Sheet.firstGap : Sheet → Gap
  | done gap | statement gap _ _ | style gap _ _ _ _ | group gap _ _ _ | block gap _ _ _ => gap

theorem remarked_append (remarks : List Remark) (p q : Stretch) :
    remarked remarks (p.append q) = (remarked remarks p).append q := by
  have hb : ∀ (blanks : List Char) (p : Stretch),
      (Stretch.behind blanks p).append q = .behind blanks (p.append q) := by
    intro blanks p
    induction blanks with
    | nil => rfl
    | cons c blanks ih => exact congrArg (Stretch.sign c) ih
  induction remarks with
  | nil => rfl
  | cons remark rest ih => simp [remarked, Stretch.append, hb, ih]

theorem inked_remarked (h : Inked p.text) : Inked (remarked remarks p).text := by
  cases remarks with
  | nil => exact h
  | cons remark rest => exact Inked.cons (by decide)

theorem inked_selectorList (h : Inked first.text) : Inked (selectorList first others).text := by
  cases others with
  | nil => exact h
  | cons second others =>
    rw [selectorList, Stretch.text_append]
    exact h.append (Inked.cons (by decide))

theorem Stretch.IsAtPrelude.inked (h : p.IsAtPrelude b) : Inked p.text := by
  rintro c hc
  rw [h.1, Option.mem_some_iff] at hc
  rw [← hc]
  decide

namespace Sheet

variable {s : Sheet}

theorem stretch_eq (s : Sheet) : s.stretch = .behind s.firstGap.blanks s.dropBlanks.stretch := by
  cases s <;> rfl

theorem WellFormed.firstGap (h : s.WellFormed b) : s.firstGap.WellFormed := by
  cases s with
  | done gap => exact h
  | statement | style | group | block => exact h.1

theorem WellFormed.dropBlanks (h : s.WellFormed b) : s.dropBlanks.WellFormed b := by
  have hg : s.firstGap.dropBlanks.WellFormed := ⟨fun c hc => absurd hc not_mem_nil, h.firstGap.2⟩
  cases s with
  | done gap => exact hg
  | statement | style | group | block => exact ⟨hg, h.2⟩

theorem WellFormed.inked (h : s.WellFormed b) : Inked s.dropBlanks.text := by
  cases s with
  | done gap => exact inked_remarked (p := .nil) fun c hc => absurd hc (by simp [Stretch.text])
  | statement gap prelude rest =>
    refine inked_remarked ?_
    rw [Stretch.text_append]
    exact h.2.1.inked.append (Inked.cons (by decide))
  | style gap first others body rest =>
    refine inked_remarked ?_
    rw [Stretch.text_append]
    exact (inked_selectorList h.2.1.1.1).append (Inked.cons (by decide))
  | group gap prelude inside rest =>
    refine inked_remarked ?_
    rw [Stretch.text_append]
    exact h.2.1.1.inked.append (Inked.cons (by decide))
  | block gap prelude body rest =>
    refine inked_remarked ?_
    rw [Stretch.text_append]
    exact h.2.1.1.inked.append (Inked.cons (by decide))

theorem trimChars_text (h : s.WellFormed .ordinary) : trimChars s.text = s.dropBlanks.stretch.trimEnd.text := by
  rw [Stretch.text_trimEnd (stretch_wellFormed h.dropBlanks), text, stretch_eq, Stretch.text_behind, trimChars,
    trimStartChars_append h.firstGap.1, ← trimChars]
  exact trimChars_of_inked h.inked

/-- The atoms that the reader starts with. -/
theorem atomsOf_trimChars (h : s.WellFormed .ordinary) :
    atomsOf (trimChars s.text) = s.dropBlanks.stretch.trimEnd.atoms := by
  rw [trimChars_text h]
  exact Stretch.atomsOf_text (stretch_wellFormed h.dropBlanks).trimEnd

/-- The atoms that the reader goes on with behind a rule. -/
theorem dropBlankAtoms_atoms (h : s.WellFormed .ordinary) :
    dropBlankAtoms s.stretch.trimEnd.atoms = s.dropBlanks.stretch.trimEnd.atoms := by
  have hs : s.dropBlanks.stretch.trimEnd.text <+: s.dropBlanks.text := by
    rw [Stretch.text_trimEnd (stretch_wellFormed h.dropBlanks)]
    exact trimEndChars_isPrefix _
  rw [stretch_eq]
  exact Stretch.dropBlankAtoms_trimEnd h.firstGap.1 (h.inked.of_isPrefix hs)

end Sheet

/-! ### Reading -/

/-- The rule that the reader makes of a prelude and the body of its block; `rules` are the rules of the body. -/
def ruleOf (prelude body : List Char) (rules : List Rule) : Rule :=
  if isGrouping (trimChars prelude) then .group (trimChars prelude) rules
  else if (trimChars prelude).head? == some '@' then .verbatim (prelude ++ '{' :: body ++ ['}'])
  else .style (readSelectors (trimChars prelude).length (atomsOf (trimChars prelude))) body

theorem readRules_statement (hp : p.WellFormed .ordinary [';', '{']) (fuel : Nat) (rest : List Atom) :
    readRules (fuel + 1) (p.atoms ++ .sign ';' :: rest) =
      .verbatim (p.text ++ [';']) :: readRules fuel (dropBlankAtoms rest) := by
  have hs : splitTopLevel? ['{', ';'] 0 (p.atoms ++ .sign ';' :: rest) = some (p.atoms, ';', rest) := by
    rw [Stretch.splitTopLevel?_atoms hp 0 fun _ => by simp]
    simp [splitTopLevel?]
  rw [readRules, hs]
  · simp
  · simp

theorem readRules_block {body : Stretch} (hp : p.WellFormed .ordinary [';', '{']) (hb : body.WellFormed .ordinary [])
    (fuel : Nat) (rest : List Atom) :
    readRules (fuel + 1) (p.atoms ++ .sign '{' :: (body.atoms ++ .sign '}' :: rest)) =
      ruleOf p.text body.text (readRules fuel (atomsOf (trimChars body.text))) ::
        readRules fuel (dropBlankAtoms rest) := by
  have hs : splitTopLevel? ['{', ';'] 0 (p.atoms ++ .sign '{' :: (body.atoms ++ .sign '}' :: rest)) =
      some (p.atoms, '{', body.atoms ++ .sign '}' :: rest) := by
    rw [Stretch.splitTopLevel?_atoms hp 0 fun _ => by simp]
    simp [splitTopLevel?]
  have hbl : splitBlock? 0 (body.atoms ++ .sign '}' :: rest) = some (body.atoms, rest) := by
    rw [Stretch.splitBlock?_atoms hb]
    simp [splitBlock?]
  rw [readRules, hs]
  · simp [hbl, ruleOf]
  · simp

/-! ### The rules that are made -/

theorem isGrouping_eq_true (prelude : List Char) : isGrouping prelude ↔ StartsGroup prelude := by
  simp [isGrouping, groupingRules, StartsGroup]

theorem startsGroup_trimEndChars (prelude : List Char) : StartsGroup (trimEndChars prelude) ↔ StartsGroup prelude := by
  unfold StartsGroup
  rw [isPrefix_trimEndChars (by decide) (by decide), isPrefix_trimEndChars (by decide) (by decide),
    isPrefix_trimEndChars (by decide) (by decide), isPrefix_trimEndChars (by decide) (by decide)]

theorem StartsGroup.head? {prelude : List Char} (h : StartsGroup prelude) : prelude.head? = some '@' := by
  rcases h with ⟨rest, rfl⟩ | ⟨rest, rfl⟩ | ⟨rest, rfl⟩ | ⟨rest, rfl⟩ <;> rfl

section

variable {prelude body : List Char} {rules : List Rule}

theorem ruleOf_group (hi : Inked prelude) (h : StartsGroup prelude) :
    ruleOf prelude body rules = .group (trimChars prelude) rules := by
  have hg : isGrouping (trimChars prelude) := by
    rwa [isGrouping_eq_true, trimChars_of_inked hi, startsGroup_trimEndChars]
  rw [ruleOf, if_pos hg]

theorem ruleOf_block (ha : prelude.head? = some '@') (h : ¬ StartsGroup prelude) :
    ruleOf prelude body rules = .verbatim (prelude ++ '{' :: body ++ ['}']) := by
  obtain ⟨rest, rfl⟩ := head?_eq_some_iff.mp ha
  have hi : isBlank '@' = false := by decide
  have hg : ¬ isGrouping (trimChars ('@' :: rest)) = true := by
    rwa [isGrouping_eq_true, trimChars_of_inked (Inked.cons hi), startsGroup_trimEndChars]
  rw [ruleOf, if_neg hg, trimChars_of_inked (Inked.cons hi), trimEndChars_cons_of_ink hi]
  rfl

/-- The selectors that the reader finds in a prelude. -/
def selectorsOf (prelude : List Char) : List Selector :=
  readSelectors (trimChars prelude).length (atomsOf (trimChars prelude))

theorem ruleOf_style (hi : Inked prelude) (ha : prelude.head? ≠ some '@') :
    ruleOf prelude body rules = .style (selectorsOf prelude) body := by
  have hh : (trimChars prelude).head? ≠ some '@' := by
    intro h
    rw [trimChars_of_inked hi] at h
    obtain ⟨rest, hr⟩ := head?_eq_some_iff.mp h
    obtain ⟨more, hm⟩ := hr ▸ trimEndChars_isPrefix prelude
    exact ha (by rw [← hm]; rfl)
  have hg : ¬ isGrouping (trimChars prelude) = true := by
    rw [isGrouping_eq_true]
    exact fun h => hh h.head?
  rw [ruleOf, if_neg hg, if_neg (by simpa using hh)]
  rfl

end

theorem readSelector_trimEndChars (text : List Char) : readSelector (trimEndChars text) = readSelector text := by
  unfold readSelector
  rw [trimChars_trimEndChars]

/-- The reader splits a prelude at the commas between its selectors. -/
theorem readSelectors_selectorList (h : ∀ s ∈ first :: others, s.WellFormed .ordinary [',', ';', '{']) {fuel : Nat}
    (hfu : others.length ≤ fuel) : readSelectors fuel (selectorList first others).trimEnd.atoms =
      (first :: others).map fun s => readSelector s.text := by
  have hf := h first mem_cons_self
  induction others generalizing first fuel with
  | nil =>
    have hl : readSelector first.trimEnd.text = readSelector first.text := by
      rw [Stretch.text_trimEnd hf, readSelector_trimEndChars]
    have hsp : splitTopLevel? [','] 0 first.trimEnd.atoms = none := by
      rw [← append_nil first.trimEnd.atoms, Stretch.splitTopLevel?_atoms hf.trimEnd 0 fun _ => by simp]
      rfl
    cases fuel with
    | zero => simp [readSelectors, selectorList, hl]
    | succ fuel => simp [readSelectors, selectorList, hsp, hl]
  | cons second others ih =>
    obtain ⟨fuel, rfl⟩ : ∃ n, fuel = n + 1 := ⟨fuel - 1, by simp at hfu; omega⟩
    have hr := ih (fun s hs => h s (mem_cons_of_mem first hs)) (by simpa using hfu)
      (h second (by simp))
    have ha : (selectorList first (second :: others)).trimEnd.atoms =
        first.atoms ++ .sign ',' :: (selectorList second others).trimEnd.atoms := by
      rw [selectorList, Stretch.trimEnd_append, Stretch.trimEnd_sign (by decide), Stretch.atoms_append]
      · rfl
      · rw [Stretch.trimEnd_sign (by decide)]
        simp
    have hsp : splitTopLevel? [','] 0 (first.atoms ++ .sign ',' :: (selectorList second others).trimEnd.atoms) =
        some (first.atoms, ',', (selectorList second others).trimEnd.atoms) := by
      rw [Stretch.splitTopLevel?_atoms hf 0 fun _ => by simp]
      simp [splitTopLevel?]
    simp [ha, readSelectors, hsp, hr]

theorem length_le_ink_selectorList (first : Stretch) (others : List Stretch) :
    others.length ≤ ink (selectorList first others).text := by
  induction others generalizing first with
  | nil => exact Nat.zero_le _
  | cons second others ih =>
    have hc : ink (Stretch.sign ',' (selectorList second others)).text =
        ink (selectorList second others).text + 1 := ink_cons (by decide) _
    have hr := ih second
    rw [selectorList, Stretch.text_append, ink_append, hc, length_cons]
    omega

theorem selectorsOf_selectorList (hik : Inked first.text)
    (h : ∀ s ∈ first :: others, s.WellFormed .ordinary [',', ';', '{']) :
    selectorsOf (selectorList first others).text = (first :: others).map fun s => readSelector s.text := by
  have hl := selectorList_wellFormed h
  have ht : trimChars (selectorList first others).text = (selectorList first others).trimEnd.text := by
    rw [trimChars_of_inked (inked_selectorList hik), Stretch.text_trimEnd hl]
  have hf : others.length ≤ (trimChars (selectorList first others).text).length := by
    have hi := length_le_ink_selectorList first others
    rw [← ink_trimChars] at hi
    exact hi.trans (ink_le_length _)
  rw [selectorsOf, ← readSelectors_selectorList h hf]
  congr 1
  rw [ht, Stretch.atomsOf_text hl.trimEnd]

/-! ### Which rules are read -/

theorem remarked_selectorList (remarks : List Remark) (first : Stretch) (others : List Stretch) :
    remarked remarks (selectorList first others) = selectorList (remarked remarks first) others := by
  cases others with
  | nil => rfl
  | cons second others => exact remarked_append remarks first _

theorem head?_remarked (h : p.text.head? ≠ some '@') : (remarked remarks p).text.head? ≠ some '@' := by
  cases remarks with
  | nil => exact h
  | cons remark rest => simp [remarked, Stretch.text, commentText]

theorem head?_selectorList (h : first.text.head? ≠ some '@') : (selectorList first others).text.head? ≠ some '@' := by
  cases others with
  | nil => exact h
  | cons second others =>
    rw [selectorList, Stretch.text_append]
    cases ht : first.text with
    | nil => simp [Stretch.text]
    | cons c cs =>
      rw [ht] at h
      exact h

/-- A prelude behind a comment does not start like that of an at-rule. -/
theorem ruleOf_remarked (hr : remarks ≠ []) (p : Stretch) (body : List Char) (rules : List Rule) :
    ruleOf (remarked remarks p).text body rules = .style (selectorsOf (remarked remarks p).text) body := by
  obtain ⟨remark, rest, rfl⟩ := exists_cons_of_ne_nil hr
  exact ruleOf_style (Inked.cons (by decide)) (by simp [remarked, Stretch.text, commentText])

namespace Sheet

/-- The rules that the reader finds. Comments are part of the rule behind them, and a rule of their own at the end. -/
def reading : Sheet → List Rule
  | done gap => if gap.remarks = [] then [] else [.verbatim (trimChars (gap.before .nil).text)]
  | statement gap prelude rest => .verbatim ((remarked gap.remarks prelude).text ++ [';']) :: rest.reading
  | style gap first others body rest =>
    .style ((remarked gap.remarks first :: others).map fun s => readSelector s.text) body.text :: rest.reading
  | group gap prelude inside rest =>
    (if gap.remarks = [] then .group (trimChars prelude.text) inside.reading
      else .style (selectorsOf (remarked gap.remarks prelude).text) inside.text) :: rest.reading
  | block gap prelude body rest =>
    (if gap.remarks = [] then .verbatim (prelude.text ++ '{' :: body.text ++ ['}'])
      else .style (selectorsOf (remarked gap.remarks prelude).text) body.text) :: rest.reading

section

variable {body : Stretch} {rest : Sheet}

/-- The reader at a rule that a semicolon ends. -/
theorem readRules_ended (hp : p.WellFormed .ordinary [';', '{']) (hr : rest.WellFormed .ordinary) (fuel : Nat) :
    readRules (fuel + 1) (p.append (.sign ';' rest.stretch)).trimEnd.atoms =
      .verbatim (p.text ++ [';']) :: readRules fuel rest.dropBlanks.stretch.trimEnd.atoms := by
  have hs : (Stretch.sign ';' rest.stretch).trimEnd = .sign ';' rest.stretch.trimEnd :=
    Stretch.trimEnd_sign (by decide) _
  rw [Stretch.trimEnd_append p (by simp [hs]), hs, Stretch.atoms_append, Stretch.atoms, readRules_statement hp,
    dropBlankAtoms_atoms hr]

/-- The reader at a rule with a block. -/
theorem readRules_braced (hp : p.WellFormed .ordinary [';', '{']) (hb : body.WellFormed .ordinary [])
    (hr : rest.WellFormed .ordinary) (fuel : Nat) :
    readRules (fuel + 1) (p.append (.nested .curly body rest.stretch)).trimEnd.atoms =
      ruleOf p.text body.text (readRules fuel (atomsOf (trimChars body.text))) ::
        readRules fuel rest.dropBlanks.stretch.trimEnd.atoms := by
  have hbl : (p.append (.nested .curly body rest.stretch)).trimEnd.atoms =
      p.atoms ++ .sign '{' :: (body.atoms ++ .sign '}' :: rest.stretch.trimEnd.atoms) := by
    rw [Stretch.trimEnd_append p (by simp [Stretch.trimEnd]), Stretch.atoms_append]
    rfl
  rw [hbl, readRules_block hp hb, dropBlankAtoms_atoms hr]

end

theorem ink_lt_before {q : Stretch} {rest : List Char} (h : ink rest < ink q.text) (gap : Gap) (p : Stretch) :
    ink rest < ink (gap.before (p.append q)).text := by
  rw [Gap.before, remarked_append, Stretch.text_behind, Stretch.text_append, ink_append, ink_append]
  omega

theorem ink_lt_nested (body rest : Stretch) : ink rest.text < ink (Stretch.nested .curly body rest).text ∧
    ink body.text < ink (Stretch.nested .curly body rest).text := by
  have ho := ink_cons (show isBlank '{' = false by decide) (body.text ++ '}' :: rest.text)
  have hc := ink_cons (show isBlank '}' = false by decide) rest.text
  have hn : ink (Stretch.nested .curly body rest).text = ink body.text + (ink rest.text + 1) + 1 := by
    rw [← hc, ← ink_append, ← ho]
    rfl
  omega

theorem readRules_done (hg : gap.WellFormed) (fuel : Nat) :
    readRules (fuel + 1) (done gap).dropBlanks.stretch.trimEnd.atoms = (done gap).reading := by
  have hd : (done gap).WellFormed .ordinary := hg
  have hw := (stretch_wellFormed hd.dropBlanks).trimEnd
  by_cases hr : gap.remarks = []
  · have hni : (done gap).dropBlanks.stretch = .nil := by
      change remarked gap.remarks .nil = _
      rw [hr]
      rfl
    rw [hni, reading, if_pos hr]
    rfl
  · have hne : (done gap).dropBlanks.stretch.trimEnd.atoms ≠ [] := by
      obtain ⟨remark, rest, hc⟩ := exists_cons_of_ne_nil hr
      change (remarked gap.remarks .nil).trimEnd.atoms ≠ []
      rw [hc]
      simp [remarked, Stretch.trimEnd, Stretch.atoms]
    have hs : splitTopLevel? ['{', ';'] 0 (done gap).dropBlanks.stretch.trimEnd.atoms = none := by
      have hn : (done gap).dropBlanks.stretch.WellFormed .ordinary ['{', ';'] :=
        remarked_wellFormed hg.2 (by simpa using by decide) trivial
      rw [← append_nil (Stretch.atoms _), Stretch.splitTopLevel?_atoms hn.trimEnd 0 fun _ => List.Subset.refl _]
      rfl
    rw [readRules, hs, Stretch.textOf_atoms, ← trimChars_text hd, reading, if_neg hr]
    · rfl
    · exact hne

/-- The reader finds the rules of a sheet. The induction is on the sheet: every rule costs the reader one unit of its
fuel, and has a delimiter, which is not blank. -/
theorem readRules_stretch {s : Sheet} (h : s.WellFormed .ordinary) {fuel : Nat} (hf : ink s.text < fuel) :
    readRules fuel s.dropBlanks.stretch.trimEnd.atoms = s.reading := by
  have hst : ∀ c ∈ [';', '{'], isBlank c = false := by simpa using by decide
  induction s generalizing fuel with
  | done gap =>
    obtain ⟨fuel, rfl⟩ : ∃ n, fuel = n + 1 := ⟨fuel - 1, by omega⟩
    exact readRules_done h fuel
  | statement gap prelude rest ih =>
    obtain ⟨fuel, rfl⟩ : ∃ n, fuel = n + 1 := ⟨fuel - 1, by omega⟩
    obtain ⟨hg, ⟨-, hp⟩, hre⟩ := h
    have hi : ink rest.text < ink (statement gap prelude rest).text :=
      ink_lt_before (by rw [Stretch.text, ink_cons (by decide)]; exact Nat.lt_succ_self _) gap prelude
    have hr := readRules_ended (remarked_wellFormed hg.2 hst hp) hre fuel
    rw [← remarked_append, ih hre (by omega)] at hr
    exact hr
  | style gap first others body rest ih =>
    obtain ⟨fuel, rfl⟩ : ∃ n, fuel = n + 1 := ⟨fuel - 1, by omega⟩
    obtain ⟨hg, ⟨⟨hik, ha⟩, hse⟩, hb, hre⟩ := h
    have hi : ink rest.text < ink (style gap first others body rest).text :=
      ink_lt_before (ink_lt_nested body rest.stretch).1 gap _
    have hra : ∀ s ∈ remarked gap.remarks first :: others, s.WellFormed .ordinary [',', ';', '{'] := by
      refine forall_mem_cons.mpr ⟨?_, fun s hs => hse s (mem_cons_of_mem first hs)⟩
      exact remarked_wellFormed hg.2 (by simpa using by decide) (hse first mem_cons_self)
    have hr := readRules_braced (selectorList_wellFormed hra) hb hre fuel
    rw [ruleOf_style (inked_selectorList (inked_remarked hik)) (head?_selectorList (head?_remarked ha)),
      selectorsOf_selectorList (inked_remarked hik) hra, ih hre (by omega), ← remarked_selectorList,
      ← remarked_append] at hr
    exact hr
  | group gap prelude inside rest ihinside ihrest =>
    obtain ⟨fuel, rfl⟩ : ∃ n, fuel = n + 1 := ⟨fuel - 1, by omega⟩
    obtain ⟨hg, ⟨ha, hgr⟩, his, hre⟩ := h
    have hi := ink_lt_before (ink_lt_nested inside.stretch rest.stretch).1 gap prelude
    have hin := ink_lt_before (ink_lt_nested inside.stretch rest.stretch).2 gap prelude
    have hr := readRules_braced (remarked_wellFormed hg.2 hst ha.2) (stretch_wellFormed his) hre fuel
    rw [← remarked_append, ihrest hre (lt_of_lt_of_le hi (Nat.lt_succ_iff.mp hf))] at hr
    refine hr.trans ?_
    rw [reading]
    by_cases hrm : gap.remarks = []
    · have hb : readRules fuel (atomsOf (trimChars inside.text)) = inside.reading := by
        rw [atomsOf_trimChars his]
        exact ihinside his (lt_of_lt_of_le hin (Nat.lt_succ_iff.mp hf))
      rw [if_pos hrm, hrm, remarked, ruleOf_group ha.inked hgr, ← hb]
      rfl
    · rw [if_neg hrm, ruleOf_remarked hrm]
      rfl
  | block gap prelude body rest ih =>
    obtain ⟨fuel, rfl⟩ : ∃ n, fuel = n + 1 := ⟨fuel - 1, by omega⟩
    obtain ⟨hg, ⟨ha, hgr⟩, hb, hre⟩ := h
    have hi := ink_lt_before (ink_lt_nested body rest.stretch).1 gap prelude
    have hr := readRules_braced (remarked_wellFormed hg.2 hst ha.2) hb hre fuel
    rw [← remarked_append, ih hre (lt_of_lt_of_le hi (Nat.lt_succ_iff.mp hf))] at hr
    refine hr.trans ?_
    rw [reading]
    by_cases hrm : gap.remarks = []
    · rw [if_pos hrm, hrm, remarked, ruleOf_block ha.1 hgr]
    · rw [if_neg hrm, ruleOf_remarked hrm]

/-- **The rules of a text are the rules of the sheet**, as the reader takes them. -/
theorem rulesOf_text {s : Sheet} (h : s.WellFormed .ordinary) : rulesOf s.text = s.reading := by
  have hf : ink s.text < (trimChars s.text).length + 1 := by
    rw [← ink_trimChars]
    exact Nat.lt_succ_of_le (ink_le_length _)
  rw [← readRules_stretch h hf, ← atomsOf_trimChars h]
  rfl

end Sheet

end Polyview.Css
