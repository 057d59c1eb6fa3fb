import Polyview.Proofs.Css.Scoping

/-! # Comments between rules

A comment in front of a rule is read as a part of that rule. A statement is kept with it, and a style rule takes it into
its first selector. But an at-rule with a block no longer starts with its name then, and is taken for a style rule: the
rules in its block are not scoped, and its name is. So comments between rules are no comments to scoping. What they
leave as it is, is told exactly by `comments_transparent_iff`. -/

namespace Polyview.Css

open List Text

/-! ### How rules are treated -/

/-- A blank, or a comment. -/
def Atom.isFiller : Atom → Bool
  | .sign c => isBlank c
  | .sealed text => text.head? == some '/'

/-- A text without the blanks and comments in front. -/
def uncommented (text : List Char) : List Char := textOf ((atomsOf text).dropWhile Atom.isFiller)

/-- How a rule is treated, whatever comments stand in front of it. -/
inductive Treatment
  /-- It is kept. -/
  | kept (text : List Char)
  /-- Its selectors are confined: each is given by what stands in the parentheses, if there are any, and by the
  pseudo-element behind them. -/
  | confined (selectors : List (Option (List Char) × List Char)) (body : List Char)
  /-- The rules in its block are treated in turn. -/
  | entered (prelude : List Char) (inside : List Treatment)

/-- How a selector is confined. -/
def Selector.treatment (s : Selector) : Option (List Char) × List Char :=
  (if s.base = [] then none else some (uncommented s.base), s.pseudo)

/-- Nothing but comments. -/
def Rule.isComment : Rule → Bool
  | .verbatim text => (uncommented text).isEmpty
  | _ => false

mutual
/-- How a rule is treated. -/
def Rule.treatment : Rule → Treatment
  | .verbatim text => .kept (uncommented text)
  | .style selectors body => .confined (selectors.map Selector.treatment) body
  | .group prelude rules => .entered prelude (treatments rules)

/-- How rules are treated, comments apart. -/
def treatments : List Rule → List Treatment
  | [] => []
  | rule :: rest => if rule.isComment then treatments rest else rule.treatment :: treatments rest
end

namespace Sheet

/-- A sheet without the comments between its rules. -/
def bare : Sheet → Sheet
  | done gap => done { blanks := gap.blanks }
  | statement gap prelude rest => statement { blanks := gap.blanks } prelude rest.bare
  | style gap first others body rest => style { blanks := gap.blanks } first others body rest.bare
  | group gap prelude inside rest => group { blanks := gap.blanks } prelude inside.bare rest.bare
  | block gap prelude body rest => block { blanks := gap.blanks } prelude body rest.bare

/-- No comment stands in front of an at-rule with a block. Where one stands in front of a style rule, there is no `::`
in it, and the first selector does not start with a pseudo-element. -/
def Transparent : Sheet → Prop
  | done _ => True
  | statement _ _ rest => rest.Transparent
  | style gap first _ _ rest =>
    (gap.remarks = [] ∨ (first.text ≠ [] ∧ ¬ "::".toList <+: first.text) ∧
      ∀ remark ∈ gap.remarks, ¬ "::".toList <:+: remark.inside) ∧ rest.Transparent
  | group gap _ inside rest => gap.remarks = [] ∧ inside.Transparent ∧ rest.Transparent
  | block gap _ _ rest => gap.remarks = [] ∧ rest.Transparent

instance decidableTransparent : (s : Sheet) → Decidable s.Transparent
  | done _ => inferInstanceAs (Decidable True)
  | statement _ _ rest => decidableTransparent rest
  | style gap _ _ _ rest =>
    have := decidableTransparent rest
    inferInstanceAs (Decidable ((gap.remarks = [] ∨ _ ∧ _) ∧ _))
  | group gap _ inside rest =>
    have := decidableTransparent inside
    have := decidableTransparent rest
    inferInstanceAs (Decidable (gap.remarks = [] ∧ _ ∧ _))
  | block gap _ _ rest =>
    have := decidableTransparent rest
    inferInstanceAs (Decidable (gap.remarks = [] ∧ _))

end Sheet

/-! ### Comments in front of a text -/

variable {remarks : List Remark} {text : List Char}

def remarksText (remarks : List Remark) : List Char :=
  remarks.flatMap fun remark => commentText remark.inside ++ remark.blanks

theorem text_remarked (remarks : List Remark) (p : Stretch) :
    (remarked remarks p).text = remarksText remarks ++ p.text := by
  induction remarks with
  | nil => rfl
  | cons remark rest ih => simp [remarked, Stretch.text, ih, remarksText]

theorem uncommented_blanks {blanks : List Char} (h : ∀ c ∈ blanks, isBlank c) (text : List Char) :
    uncommented (blanks ++ text) = uncommented text := by
  induction blanks with
  | nil => rfl
  | cons c blanks ih =>
    have hc : isBlank c := h c mem_cons_self
    have hq : c ∉ quotes := fun hq => by simp [Stretch.isBlank_quote hq] at hc
    have hs : c ≠ '/' := by
      rintro rfl
      exact absurd hc (by decide)
    have hf : (Atom.sign c).isFiller := hc
    rw [← ih fun d hd => h d (mem_cons_of_mem c hd), uncommented, cons_append,
      atomsOf_cons hq fun h => absurd h hs, dropWhile_cons_of_pos hf]
    rfl

theorem uncommented_remarks (h : ∀ remark ∈ remarks, remark.WellFormed) (text : List Char) :
    uncommented (remarksText remarks ++ text) = uncommented text := by
  induction remarks with
  | nil => rfl
  | cons remark rest ih =>
    have hre := h remark mem_cons_self
    have hc : ∀ more : List Char, uncommented (commentText remark.inside ++ more) = uncommented more := by
      intro more
      rw [uncommented, atomsOf_commentText hre.1, dropWhile_cons_of_pos (by rfl)]
      rfl
    rw [remarksText, flatMap_cons, append_assoc, append_assoc, hc, uncommented_blanks hre.2]
    exact ih fun r hr => h r (mem_cons_of_mem remark hr)

theorem uncommented_ne_nil (h : text.head? = some '@') : uncommented text ≠ [] := by
  obtain ⟨rest, rfl⟩ := head?_eq_some_iff.mp h
  rw [uncommented, atomsOf_cons (by decide) fun h => absurd h (by decide), dropWhile_cons_of_neg (by decide)]
  exact cons_ne_nil _ _

/-! ### Comments in front of a selector -/

section

variable {c : Char} {lead rest : List Char}

theorem beforePseudo_cons (h : c = ':' → rest.head? ≠ some ':') :
    beforePseudo (c :: rest) = c :: beforePseudo rest := by
  rw [beforePseudo]
  rintro tail rfl rfl
  exact h rfl rfl

/-- A pseudo-element that starts in a text is found there, whatever follows. -/
theorem pseudoOf_append (h : "::".toList <:+: lead) (rest : List Char) :
    pseudoOf (lead ++ rest) = pseudoOf lead ++ rest := by
  have hl : (beforePseudo lead).length ≤ lead.length := by
    conv_rhs => rw [← beforePseudo_append lead, length_append]
    omega
  suffices heq : beforePseudo (lead ++ rest) = beforePseudo lead by
    rw [pseudoOf, pseudoOf, heq, drop_append_of_le_length hl]
  clear hl
  fun_induction beforePseudo lead with
  | case1 => exact absurd (eq_nil_of_infix_nil h) (by decide)
  | case2 cs => rfl
  | case3 c cs hp ih =>
    have ht : "::".toList <:+: cs := by
      rcases infix_cons_iff.mp h with ⟨tail, ht⟩ | ht
      · obtain ⟨hc, hcs⟩ := List.cons.inj ht
        exact absurd hcs.symm (hp tail hc.symm)
      · exact ht
    rw [cons_append, beforePseudo_cons, ih ht]
    rintro rfl hh
    cases cs with
    | nil => exact absurd (eq_nil_of_infix_nil ht) (by decide)
    | cons d ds => exact hp ds rfl (by simpa using hh)

/-- No pseudo-element starts in a text, whatever follows. -/
def PseudoFree (lead : List Char) : Prop := ∀ rest, beforePseudo (lead ++ rest) = lead ++ beforePseudo rest

theorem PseudoFree.append {more : List Char} (h : PseudoFree lead) (hm : PseudoFree more) :
    PseudoFree (lead ++ more) := by
  intro rest
  rw [append_assoc, h, hm, append_assoc]

theorem pseudoFree_of_not_mem (h : ':' ∉ lead) : PseudoFree lead := by
  intro rest
  induction lead with
  | nil => rfl
  | cons c lead ih =>
    rw [mem_cons, not_or] at h
    rw [cons_append, beforePseudo_cons fun hc => absurd hc.symm h.1, ih h.2, cons_append]

theorem pseudoFree_commentText (h : ¬ "::".toList <:+: lead) : PseudoFree (commentText lead) := by
  have hi : ∀ rest : List Char, beforePseudo (lead ++ '*' :: rest) = lead ++ beforePseudo ('*' :: rest) := by
    intro rest
    induction lead with
    | nil => rfl
    | cons c lead ih =>
      have hl : ¬ "::".toList <:+: lead := fun hw => h (hw.trans (suffix_cons c lead).isInfix)
      rw [cons_append, beforePseudo_cons, ih hl, cons_append]
      rintro rfl hh
      cases lead with
      | nil => simp at hh
      | cons d ds =>
        obtain rfl : d = ':' := by simpa using hh
        exact h ⟨[], ds, rfl⟩
  intro rest
  have hs : PseudoFree ['/', '*'] := pseudoFree_of_not_mem (by decide)
  have he : PseudoFree ['*', '/'] := pseudoFree_of_not_mem (by decide)
  calc beforePseudo (commentText lead ++ rest)
      = beforePseudo (['/', '*'] ++ (lead ++ '*' :: ('/' :: rest))) := by simp [commentText]
    _ = ['/', '*'] ++ (lead ++ beforePseudo ('*' :: ('/' :: rest))) := by rw [hs, hi]
    _ = ['/', '*'] ++ (lead ++ (['*', '/'] ++ beforePseudo rest)) := by rw [← he rest]; rfl
    _ = commentText lead ++ beforePseudo rest := by simp [commentText]

end

theorem pseudoFree_remarks (h : ∀ remark ∈ remarks, remark.WellFormed)
    (hp : ∀ remark ∈ remarks, ¬ "::".toList <:+: remark.inside) : PseudoFree (remarksText remarks) := by
  induction remarks with
  | nil => exact fun rest => rfl
  | cons remark rest ih =>
    obtain ⟨hr, hre⟩ := forall_mem_cons.mp h
    obtain ⟨hi, ho⟩ := forall_mem_cons.mp hp
    have hb : ':' ∉ remark.blanks := fun hm => absurd (hr.2 ':' hm) (by decide)
    exact ((pseudoFree_commentText hi).append (pseudoFree_of_not_mem hb)).append (ih hre ho)

theorem beforePseudo_eq_nil (text : List Char) : beforePseudo text = [] ↔ text = [] ∨ "::".toList <+: text := by
  fun_cases beforePseudo text with
  | case1 => simp
  | case2 cs => simp
  | case3 c cs hp =>
    refine iff_of_false (cons_ne_nil _ _) ?_
    rintro (hn | ⟨tail, ht⟩)
    · exact absurd hn (cons_ne_nil c cs)
    · obtain ⟨hc, hcs⟩ := List.cons.inj ht
      exact hp tail hc.symm hcs.symm

theorem inked_beforePseudo (h : Inked text) : Inked (beforePseudo text) :=
  h.of_isPrefix ⟨pseudoOf text, beforePseudo_append text⟩

/-- Nothing but a pseudo-element is selected exactly if the selector is empty or starts with it. -/
theorem base_readSelector_eq_nil (h : Inked text) :
    (readSelector text).base = [] ↔ text = [] ∨ "::".toList <+: text := by
  have hi : Inked (trimEndChars text) := h.of_isPrefix (trimEndChars_isPrefix text)
  have hb : Inked (beforePseudo (trimEndChars text)) := inked_beforePseudo hi
  have hbl : ∀ cs : List Char, Inked cs → (trimEndChars cs = [] ↔ cs = []) := by
    intro cs hc
    refine ⟨fun hn => ?_, fun hn => by rw [hn]; rfl⟩
    cases cs with
    | nil => rfl
    | cons c cs =>
      rw [trimEndChars_cons_of_ink (hc c rfl)] at hn
      exact absurd hn (cons_ne_nil _ _)
  rw [readSelector_eq, trimChars_of_inked h, trimChars_of_inked hb, hbl _ hb, beforePseudo_eq_nil,
    hbl _ h, isPrefix_trimEndChars (by decide) (by decide)]

theorem inked_remarksText (hr : remarks ≠ []) (text : List Char) : Inked (remarksText remarks ++ text) := by
  obtain ⟨remark, rest, rfl⟩ := exists_cons_of_ne_nil hr
  exact Inked.cons (by decide)

theorem base_remarks_ne_nil (hr : remarks ≠ []) (text : List Char) :
    (readSelector (remarksText remarks ++ text)).base ≠ [] := by
  rw [Ne, base_readSelector_eq_nil (inked_remarksText hr text)]
  obtain ⟨remark, rest, rfl⟩ := exists_cons_of_ne_nil hr
  rintro (hn | ⟨tail, ht⟩)
  · exact absurd hn (by simp [remarksText, commentText])
  · exact absurd (List.cons.inj ht).1 (by decide)

/-- A `::` in a comment is taken for the start of a pseudo-element, which then holds the selector. -/
theorem length_pseudo_lt (hre : remarks ≠ []) (hp : ∃ remark ∈ remarks, "::".toList <:+: remark.inside)
    (text : List Char) : (trimEndChars text).length < (readSelector (remarksText remarks ++ text)).pseudo.length := by
  obtain ⟨remark, hme, hi⟩ := hp
  obtain ⟨before, after, hs⟩ := append_of_mem hme
  set lead := remarksText before ++ '/' :: '*' :: remark.inside ++ ['*'] with hl
  set more := remark.blanks ++ remarksText after with hm
  have ht : remarksText remarks ++ text = lead ++ '/' :: (more ++ text) := by
    simp [hs, hl, hm, remarksText, commentText]
  have hw : "::".toList <:+: lead := hi.trans ⟨remarksText before ++ ['/', '*'], ['*'], by simp [hl]⟩
  have hle : (trimEndChars text).length ≤ (trimEndChars (more ++ text)).length := by
    by_cases hn : trimEndChars text = []
    · simp [hn]
    · rw [trimEndChars_append more hn, length_append]
      omega
  have hr : (readSelector (remarksText remarks ++ text)).pseudo =
      pseudoOf lead ++ '/' :: trimEndChars (more ++ text) := by
    rw [readSelector_eq, trimChars_of_inked (inked_remarksText hre text), ht,
      trimEndChars_append_cons lead (by decide), pseudoOf_append hw]
  rw [hr, length_append, length_cons]
  omega

theorem length_pseudo_le (h : Inked text) : (readSelector text).pseudo.length ≤ (trimEndChars text).length := by
  rw [readSelector_eq, trimChars_of_inked h, pseudoOf, length_drop]
  omega

/-- Comments without `::` become a part of what is selected. -/
theorem readSelector_remarks (hre : remarks ≠ []) (hf : PseudoFree (remarksText remarks)) (hi : Inked text)
    (hb : (readSelector text).base ≠ []) : readSelector (remarksText remarks ++ text) =
      ⟨remarksText remarks ++ (readSelector text).base, (readSelector text).pseudo⟩ := by
  have hr : (readSelector text).base = trimEndChars (beforePseudo (trimEndChars text)) := by
    rw [readSelector_eq, trimChars_of_inked hi]
    exact trimChars_of_inked (inked_beforePseudo (hi.of_isPrefix (trimEndChars_isPrefix text)))
  have hne : trimEndChars text ≠ [] := by
    intro hn
    rw [hr, hn] at hb
    exact hb rfl
  have ht : trimChars (remarksText remarks ++ text) = remarksText remarks ++ trimEndChars text := by
    rw [trimChars_of_inked (inked_remarksText hre text), trimEndChars_append _ hne]
  rw [readSelector_eq (remarksText remarks ++ text), ht, hf, trimChars_of_inked (inked_remarksText hre _),
    trimEndChars_append _ (hr ▸ hb), hr, pseudoOf, hf, length_append, drop_append]
  simp [readSelector_eq, trimChars_of_inked hi, pseudoOf]

/-- What comments in front of a selector leave as it is. -/
theorem treatment_remarks (hre : remarks ≠ []) (h : ∀ remark ∈ remarks, remark.WellFormed) (hi : Inked text) :
    (readSelector (remarksText remarks ++ text)).treatment = (readSelector text).treatment ↔
      (text ≠ [] ∧ ¬ "::".toList <+: text) ∧ ∀ remark ∈ remarks, ¬ "::".toList <:+: remark.inside := by
  have hr := base_remarks_ne_nil hre text
  rw [← not_or, ← base_readSelector_eq_nil hi]
  constructor
  · intro ht
    rw [Selector.treatment, Selector.treatment, if_neg hr, Prod.mk.injEq] at ht
    obtain ⟨hb, hp⟩ := ht
    refine ⟨fun hn => by simp [hn] at hb, fun remark hm hin => ?_⟩
    have hl := length_pseudo_lt hre ⟨remark, hm, hin⟩ text
    have hle := length_pseudo_le hi
    rw [hp] at hl
    omega
  · rintro ⟨hb, hp⟩
    rw [Selector.treatment, if_neg hr, readSelector_remarks hre (pseudoFree_remarks h hp) hi hb,
      uncommented_remarks h, Selector.treatment, if_neg hb]

/-! ### Comments at the end -/

theorem Stretch.trimEnd_atoms_isPrefix (p : Stretch) : p.trimEnd.atoms <+: p.atoms := by
  induction p with
  | nil => exact nil_prefix
  | sign c rest ih =>
    unfold Stretch.trimEnd
    split_ifs
    · exact nil_prefix
    · exact (prefix_cons_inj _).mpr ih
  | escape c rest ih => exact (prefix_cons_inj _).mpr ((prefix_cons_inj _).mpr ih)
  | quoted quote inside rest ih => exact (prefix_cons_inj _).mpr ih
  | comment inside rest ih => exact (prefix_cons_inj _).mpr ih
  | nested bracket inside rest _ ih => exact (prefix_append_right_inj _).mpr ((prefix_cons_inj _).mpr ih)

theorem isFiller_remarked (h : ∀ remark ∈ remarks, remark.WellFormed) :
    ∀ a ∈ (remarked remarks .nil).atoms, a.isFiller := by
  have hbe : ∀ (blanks : List Char) (p : Stretch), (∀ c ∈ blanks, isBlank c = true) →
      (∀ a ∈ p.atoms, a.isFiller = true) → ∀ a ∈ (Stretch.behind blanks p).atoms, a.isFiller = true := by
    intro blanks p hb hp
    induction blanks with
    | nil => exact hp
    | cons c blanks ih =>
      obtain ⟨hc, hr⟩ := forall_mem_cons.mp hb
      exact forall_mem_cons.mpr ⟨hc, ih hr⟩
  induction remarks with
  | nil => exact fun a ha => absurd ha not_mem_nil
  | cons remark rest ih =>
    obtain ⟨hre, hr⟩ := forall_mem_cons.mp h
    exact forall_mem_cons.mpr ⟨rfl, hbe _ _ hre.2 (ih hr)⟩

namespace Sheet

/-- What stands behind the last rule is no rule. -/
theorem treatments_done {gap : Gap} (h : gap.WellFormed) : treatments (done gap).reading = [] := by
  have hd : (done gap).WellFormed .ordinary := h
  rw [reading]
  split_ifs with hr
  · rfl
  · have hf : ∀ a ∈ (done gap).dropBlanks.stretch.trimEnd.atoms, a.isFiller = true := fun a ha =>
      isFiller_remarked h.2 a ((Stretch.trimEnd_atoms_isPrefix _).subset ha)
    have hn : uncommented (trimChars (gap.before .nil).text) = [] := by
      have hat := atomsOf_trimChars hd
      rw [uncommented]
      change textOf ((atomsOf (trimChars (done gap).text)).dropWhile _) = []
      rw [hat, dropWhile_eq_nil_iff.mpr hf]
      rfl
    rw [treatments, if_pos (by rw [Rule.isComment, hn]; rfl)]
    rfl

theorem WellFormed.bare {b : Backslash} {s : Sheet} (h : s.WellFormed b) : s.bare.WellFormed b := by
  have hg : ∀ gap : Gap, gap.WellFormed → ({ blanks := gap.blanks } : Gap).WellFormed :=
    fun gap hg => ⟨hg.1, fun remark hm => absurd hm not_mem_nil⟩
  induction s with
  | done gap => exact hg gap h
  | statement gap prelude rest ih => exact ⟨hg gap h.1, h.2.1, ih h.2.2⟩
  | style gap first others body rest ih => exact ⟨hg gap h.1, h.2.1, h.2.2.1, ih h.2.2.2⟩
  | group gap prelude inside rest ihinside ihrest => exact ⟨hg gap h.1, h.2.1, ihinside h.2.2.1, ihrest h.2.2.2⟩
  | block gap prelude body rest ih => exact ⟨hg gap h.1, h.2.1, h.2.2.1, ih h.2.2.2⟩

theorem treatments_verbatim {text : List Char} (h : uncommented text ≠ []) (rest : List Rule) :
    treatments (.verbatim text :: rest) = .kept (uncommented text) :: treatments rest := by
  have hc : ¬ (Rule.verbatim text).isComment = true := by simpa [Rule.isComment] using h
  rw [treatments, if_neg hc]
  rfl

theorem treatments_style (selectors : List Selector) (body : List Char) (rest : List Rule) :
    treatments (.style selectors body :: rest) =
      .confined (selectors.map Selector.treatment) body :: treatments rest := rfl

theorem treatments_group (prelude : List Char) (rules rest : List Rule) :
    treatments (.group prelude rules :: rest) = .entered prelude (treatments rules) :: treatments rest := rfl

theorem head?_append_at {prelude : List Char} (h : prelude.head? = some '@') (rest : List Char) :
    (prelude ++ rest).head? = some '@' := by
  obtain ⟨more, rfl⟩ := head?_eq_some_iff.mp h
  rfl

/-- Comments are compared rule by rule: the induction is on the sheet, and there are as many rules with comments as
without. -/
theorem treatments_reading_iff {s : Sheet} (h : s.WellFormed .ordinary) :
    treatments s.reading = treatments s.bare.reading ↔ s.Transparent := by
  induction s with
  | done gap => exact iff_of_true (by rw [treatments_done h]; rfl) trivial
  | statement gap prelude rest ih =>
    obtain ⟨hg, hp, hre⟩ := h
    have hk := uncommented_ne_nil (head?_append_at hp.1 [';'])
    have hrm := uncommented_remarks hg.2 (prelude.text ++ [';'])
    rw [bare, reading, reading, remarked, text_remarked, append_assoc, treatments_verbatim (hrm ▸ hk),
      treatments_verbatim hk, hrm, cons_inj_right, ih hre, Transparent]
  | style gap first others body rest ih =>
    obtain ⟨hg, ⟨⟨hi, -⟩, -⟩, -, hre⟩ := h
    rw [bare, reading, reading, treatments_style, treatments_style, remarked, List.cons.injEq, Treatment.confined.injEq,
      ih hre, Transparent, map_cons, map_cons, map_cons, map_cons, text_remarked]
    refine and_congr_left fun _ => ?_
    by_cases hr : gap.remarks = []
    · simp [hr, remarksText]
    · rw [← treatment_remarks hr hg.2 hi]
      simp [hr]
  | group gap prelude inside rest ihinside ihrest =>
    obtain ⟨-, -, hin, hre⟩ := h
    rw [bare, reading, reading, if_pos rfl, Transparent]
    by_cases hr : gap.remarks = []
    · rw [if_pos hr, treatments_group, treatments_group, List.cons.injEq, Treatment.entered.injEq,
        ihinside hin, ihrest hre]
      simp [hr]
    · rw [if_neg hr, treatments_style, treatments_group]
      simp [hr]
  | block gap prelude body rest ih =>
    obtain ⟨-, ⟨hp, -⟩, -, hre⟩ := h
    have hk := uncommented_ne_nil (head?_append_at hp.1 ('{' :: (body.text ++ ['}'])))
    rw [bare, reading, reading, if_pos rfl, Transparent]
    by_cases hr : gap.remarks = []
    · rw [if_pos hr, append_assoc, cons_append, treatments_verbatim hk, treatments_verbatim hk, List.cons.injEq, ih hre]
      simp [hr]
    · rw [if_neg hr, treatments_style, append_assoc, cons_append, treatments_verbatim hk]
      simp [hr]

end Sheet

/-- **What comments between rules change.** Every rule is treated as it is without these comments if and only if none
of them stands in front of an at-rule with a block, and those in front of a style rule hold no `::` and meet a selector
that does not start with a pseudo-element. -/
theorem comments_transparent_iff (s : Sheet) (h : s.WellFormed .ordinary) :
    treatments (rulesOf s.text) = treatments (rulesOf s.bare.text) ↔ s.Transparent := by
  rw [Sheet.rulesOf_text h, Sheet.rulesOf_text h.bare]
  exact Sheet.treatments_reading_iff h

/-- `/* a */ @import "x"; /* b: c */ a::after { color: red } /* d */` -/
def remarkedSheet : Sheet :=
  .statement { remarks := [⟨" a ".toList, [' ']⟩] } (.behind "@import ".toList (.quoted '"' ['x'] .nil))
    (.style { blanks := [' '], remarks := [⟨" b: c ".toList, [' ']⟩] } (.behind "a::after ".toList .nil) []
      (.behind " color: red ".toList .nil) (.done { blanks := [' '], remarks := [⟨" d ".toList, []⟩] }))

/-- Comments in front of a statement, of a style rule and at the end are transparent. -/
theorem remarkedSheet_transparent : remarkedSheet.WellFormed .ordinary ∧
    treatments (rulesOf remarkedSheet.text) = treatments (rulesOf remarkedSheet.bare.text) := by
  have hw : remarkedSheet.WellFormed .ordinary := by decide
  exact ⟨hw, (comments_transparent_iff remarkedSheet hw).mpr (by decide)⟩

/-- `/* c */ @media (min-width: 9px) { p { margin: 0 } }` -/
def hiddenMedia : Sheet :=
  .group { remarks := [⟨" c ".toList, [' ']⟩] }
    (.behind "@media ".toList (.nested .round (.behind "min-width: 9px".toList .nil) (.sign ' ' .nil)))
    (.style { blanks := [' '] } (.behind "p ".toList .nil) [] (.behind " margin: 0 ".toList .nil)
      (.done { blanks := [' '] }))
    (.done {})

/-- Behind a comment the rules of a media query are not confined, and its prelude is. -/
theorem comment_hides_media : hiddenMedia.WellFormed .escapes ∧ scopeStyles "s" (String.ofList hiddenMedia.bare.text) =
      "@media (min-width: 9px) \x7b :where([s], [s] *):is(p) \x7b margin: 0 \x7d \x7d" ∧
    scopeStyles "s" (String.ofList hiddenMedia.text) =
      ":where([s], [s] *):is(/* c */ @media (min-width: 9px)) \x7b p \x7b margin: 0 \x7d \x7d" :=
  ⟨by decide, by decide +kernel, by decide +kernel⟩

end Polyview.Css
