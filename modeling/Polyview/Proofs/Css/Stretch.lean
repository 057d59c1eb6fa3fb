import Mathlib.Data.List.Infix
import Polyview.Css.Rule
import Polyview.Proofs.Text.Trimming

/-! # Stretches of a stylesheet

A stretch is a piece of a stylesheet with its structure: characters, strings, comments, and brackets around further
stretches. So its strings and comments are closed and its brackets are balanced. The reader knows nothing of this
structure, it goes through a text character by character. Here it is shown to agree with it:

* `Stretch.atomsOf_text`: the atoms of the text are those of the stretch;
* `Stretch.splitTopLevel?_atoms` and `Stretch.splitBlock?_atoms`: the searches for a stop and for the end of a block
  pass over a stretch.

In a stylesheet a backslash escapes the character behind it, also outside strings. The reader takes such a backslash for
a character like any other, so well-formedness is defined for both meanings (`Backslash`). -/

namespace Polyview.Css

open List Text

/-! ### The structure of a stretch -/

/-- A kind of brackets. -/
inductive Bracket
  | round
  | square
  | curly
deriving DecidableEq

/-- The bracket in front. -/
def Bracket.opening : Bracket → Char
  | .round => '('
  | .square => '['
  | .curly => '{'

/-- The bracket behind. -/
def Bracket.closing : Bracket → Char
  | .round => ')'
  | .square => ']'
  | .curly => '}'

/-- A piece of a stylesheet, from its start to its end. -/
inductive Stretch
  | nil
  /-- A character outside strings and comments. -/
  | sign (c : Char) (rest : Stretch)
  /-- A character behind the backslash that escapes it. -/
  | escape (c : Char) (rest : Stretch)
  /-- A string. -/
  | quoted (quote : Char) (inside : List Char) (rest : Stretch)
  /-- A comment. -/
  | comment (inside : List Char) (rest : Stretch)
  /-- A stretch in brackets. -/
  | nested (bracket : Bracket) (inside rest : Stretch)
deriving DecidableEq

/-- A comment with its delimiters. -/
def commentText (inside : List Char) : List Char := '/' :: '*' :: inside ++ ['*', '/']

/-- A string with its quotes. -/
def quotedText (quote : Char) (inside : List Char) : List Char := quote :: inside ++ [quote]

namespace Stretch

def text : Stretch → List Char
  | nil => []
  | sign c rest => c :: rest.text
  | escape c rest => '\\' :: c :: rest.text
  | quoted quote inside rest => quotedText quote inside ++ rest.text
  | comment inside rest => commentText inside ++ rest.text
  | nested bracket inside rest => bracket.opening :: inside.text ++ bracket.closing :: rest.text

/-- One stretch behind another. -/
def append : Stretch → Stretch → Stretch
  | nil, q => q
  | sign c rest, q => sign c (rest.append q)
  | escape c rest, q => escape c (rest.append q)
  | quoted quote inside rest, q => quoted quote inside (rest.append q)
  | comment inside rest, q => comment inside (rest.append q)
  | nested bracket inside rest, q => nested bracket inside (rest.append q)

/-- A stretch behind characters. -/
def behind (cs : List Char) (rest : Stretch) : Stretch := cs.foldr sign rest

end Stretch

/-! ### Well-formed stretches -/

/-- What a backslash outside strings means. -/
inductive Backslash
  /-- It escapes the character behind it. -/
  | escapes
  /-- It is a character like any other. -/
  | ordinary
deriving DecidableEq

/-- The characters that start and end strings. -/
def quotes : List Char := ['"', '\'']

/-- The characters that are brackets. -/
def brackets : List Char := ['(', ')', '[', ']', '{', '}']

/-- Whether a text may stand between two quotes: the quote occurs in it only behind a backslash, and a backslash only in
front of a character. -/
def isInside (quote : Char) : List Char → Bool
  | [] => true
  | '\\' :: _ :: cs => isInside quote cs
  | c :: cs => c != quote && c != '\\' && isInside quote cs

/-- A text that may stand between the delimiters of a comment. -/
def IsRemark (inside : List Char) : Prop := ¬ ['*', '/'] <:+: inside

instance (inside : List Char) : Decidable (IsRemark inside) := inferInstanceAs (Decidable (¬ _))

namespace Stretch

/-- A stretch in which strings and comments are closed, and none of the characters `stops` stands outside brackets. -/
def WellFormed (b : Backslash) : List Char → Stretch → Prop
  | _, nil => True
  | stops, sign c rest =>
    (c ∉ quotes ∧ c ∉ brackets ∧ c ∉ stops) ∧ (c = '\\' → b = .ordinary) ∧
      (c = '/' → rest.text.head? ≠ some '*') ∧ rest.WellFormed b stops
  | stops, escape _ rest => b = .escapes ∧ rest.WellFormed b stops
  | stops, quoted quote inside rest => (quote ∈ quotes ∧ isInside quote inside = true) ∧ rest.WellFormed b stops
  | stops, comment inside rest => IsRemark inside ∧ rest.WellFormed b stops
  | stops, nested bracket inside rest => bracket.opening ∉ stops ∧ inside.WellFormed b [] ∧ rest.WellFormed b stops

instance decidableWellFormed (b : Backslash) : (stops : List Char) → (p : Stretch) → Decidable (p.WellFormed b stops)
  | _, nil => inferInstanceAs (Decidable True)
  | stops, sign _ rest =>
    have := decidableWellFormed b stops rest
    inferInstanceAs (Decidable (_ ∧ _ ∧ (_ → _) ∧ _))
  | stops, escape _ rest =>
    have := decidableWellFormed b stops rest
    inferInstanceAs (Decidable (_ ∧ _))
  | stops, quoted _ _ rest =>
    have := decidableWellFormed b stops rest
    inferInstanceAs (Decidable (_ ∧ _))
  | stops, comment _ rest =>
    have := decidableWellFormed b stops rest
    inferInstanceAs (Decidable (_ ∧ _))
  | stops, nested _ inside rest =>
    have := decidableWellFormed b stops rest
    have := decidableWellFormed b [] inside
    inferInstanceAs (Decidable (_ ∧ _ ∧ _))

variable {b : Backslash} {p q : Stretch} {stops fewer : List Char}

@[simp]
theorem text_append (p q : Stretch) : (p.append q).text = p.text ++ q.text := by
  induction p with
  | nil => rfl
  | sign | escape | quoted | comment | nested => simp_all [append, text]

@[simp]
theorem text_behind (cs : List Char) (p : Stretch) : (behind cs p).text = cs ++ p.text := by
  induction cs with
  | nil => rfl
  | cons c cs ih => rw [cons_append, ← ih]; rfl

theorem WellFormed.mono (h : p.WellFormed b stops) (hf : fewer ⊆ stops) : p.WellFormed b fewer := by
  induction p generalizing stops fewer with
  | nil => trivial
  | sign c rest ih =>
    obtain ⟨⟨hq, hb, hst⟩, hsl, hs, hr⟩ := h
    exact ⟨⟨hq, hb, fun hc => hst (hf hc)⟩, hsl, hs, ih hr hf⟩
  | escape c rest ih => exact ⟨h.1, ih h.2 hf⟩
  | quoted quote inside rest ih => exact ⟨h.1, ih h.2 hf⟩
  | comment inside rest ih => exact ⟨h.1, ih h.2 hf⟩
  | nested bracket inside rest _ ih => exact ⟨fun hc => h.1 (hf hc), h.2.1, ih h.2.2 hf⟩

theorem WellFormed.append (hp : p.WellFormed b stops) (hq : q.WellFormed b stops) (hst : q.text.head? ≠ some '*') :
    (p.append q).WellFormed b stops := by
  induction p with
  | nil => exact hq
  | sign c rest ih =>
    obtain ⟨hs, hsl, hn, hr⟩ := hp
    refine ⟨hs, hsl, fun hc => ?_, ih hr⟩
    rw [text_append]
    cases ht : rest.text with
    | nil => exact hst
    | cons d ds =>
      rw [ht] at hn
      exact hn hc
  | escape c rest ih => exact ⟨hp.1, ih hp.2⟩
  | quoted quote inside rest ih => exact ⟨hp.1, ih hp.2⟩
  | comment inside rest ih => exact ⟨hp.1, ih hp.2⟩
  | nested bracket inside rest _ ih => exact ⟨hp.1, hp.2.1, ih hp.2.2⟩

end Stretch

/-! ### Atoms -/

variable {c quote : Char} {inside rest : List Char}

theorem atomsOf_cons (hq : c ∉ quotes) (hs : c = '/' → rest.head? ≠ some '*') :
    atomsOf (c :: rest) = .sign c :: atomsOf rest := by
  have hp : (c == '"' || c == '\'') = false := by simpa [quotes] using hq
  unfold atomsOf
  rw [scan]
  · rw [if_neg (by simp [hp])]
  · rintro cs rfl rfl
    exact hs rfl rfl

theorem scan_quoted (hq : quote ∈ quotes) (h : isInside quote inside) (rest before : List Char) :
    scan (.quoted quote false) before (inside ++ quote :: rest) =
      .sealed (before.reverse ++ inside ++ [quote]) :: atomsOf rest := by
  have hs : quote ≠ '\\' := by
    rintro rfl
    exact absurd hq (by decide)
  fun_induction isInside quote inside generalizing before with
  | case1 => simp [scan, hs, atomsOf]
  | case2 c cs ih => simp [scan, ih h]
  | case3 c cs _ ih =>
    simp only [Bool.and_eq_true, bne_iff_ne] at h
    simp [scan, h, ih h.2]

theorem atomsOf_quotedText (hq : quote ∈ quotes) (h : isInside quote inside) (rest : List Char) :
    atomsOf (quotedText quote inside ++ rest) = .sealed (quotedText quote inside) :: atomsOf rest := by
  have ho : (quote == '"' || quote == '\'') := by simpa [quotes] using hq
  have hsl : quote ≠ '/' := by
    rintro rfl
    exact absurd hq (by decide)
  have hs := scan_quoted hq h rest [quote]
  rw [quotedText, append_assoc, cons_append, atomsOf, scan]
  · rw [if_pos ho]
    simpa using hs
  · exact fun _ hc => absurd hc hsl

/-- A star of the inside does not close a comment if no slash follows it. -/
theorem scan_comment (starred : Bool) (h : IsRemark inside) (hs : starred → inside.head? ≠ some '/')
    (rest before : List Char) : scan (.comment starred) before (inside ++ '*' :: '/' :: rest) =
      .sealed (before.reverse ++ inside ++ ['*', '/']) :: atomsOf rest := by
  induction inside generalizing starred before with
  | nil => simp [scan, atomsOf]
  | cons c cs ih =>
    have ho : ¬ (starred && c == '/') = true := by
      intro hc
      simp only [Bool.and_eq_true, beq_iff_eq] at hc
      exact hs hc.1 (by rw [hc.2]; rfl)
    have hcs : IsRemark cs := fun hw => h (hw.trans (suffix_cons c cs).isInfix)
    have hn : (c == '*') = true → cs.head? ≠ some '/' := by
      intro hst hsl
      obtain ⟨tail, rfl⟩ := head?_eq_some_iff.mp hsl
      rw [beq_iff_eq.mp hst] at h
      exact h ⟨[], tail, rfl⟩
    rw [cons_append, scan, if_neg ho, ih _ hcs hn]
    simp

theorem atomsOf_commentText (h : IsRemark inside) (rest : List Char) :
    atomsOf (commentText inside ++ rest) = .sealed (commentText inside) :: atomsOf rest := by
  have hs := scan_comment false h (by simp) rest ['*', '/']
  simpa [commentText, atomsOf, scan] using hs

namespace Stretch

variable {b : Backslash} {p q : Stretch} {stops others : List Char}

def atoms : Stretch → List Atom
  | nil => []
  | sign c rest => .sign c :: rest.atoms
  | escape c rest => .sign '\\' :: .sign c :: rest.atoms
  | quoted quote inside rest => .sealed (quotedText quote inside) :: rest.atoms
  | comment inside rest => .sealed (commentText inside) :: rest.atoms
  | nested bracket inside rest => .sign bracket.opening :: inside.atoms ++ .sign bracket.closing :: rest.atoms

@[simp]
theorem textOf_atoms (p : Stretch) : textOf p.atoms = p.text := by
  induction p with
  | nil => rfl
  | sign | escape | quoted | comment | nested => simp_all [atoms, text, textOf, Atom.chars]

@[simp]
theorem atoms_append (p q : Stretch) : (p.append q).atoms = p.atoms ++ q.atoms := by
  induction p with
  | nil => rfl
  | sign | escape | quoted | comment | nested => simp_all [append, atoms]

theorem opening_not_mem_quotes (bracket : Bracket) : bracket.opening ∉ quotes := by
  cases bracket <;> decide

theorem closing_not_mem_quotes (bracket : Bracket) : bracket.closing ∉ quotes := by
  cases bracket <;> decide

theorem opening_ne_slash (bracket : Bracket) : bracket.opening ≠ '/' := by
  cases bracket <;> decide

theorem closing_ne_slash (bracket : Bracket) : bracket.closing ≠ '/' := by
  cases bracket <;> decide

theorem closing_ne_star (bracket : Bracket) : bracket.closing ≠ '*' := by
  cases bracket <;> decide

/-- **The reader finds the atoms of a stretch**, whatever follows it. Only a star behind it could be the start of a
comment that does not belong to it. -/
theorem atomsOf_append (h : p.WellFormed .ordinary stops) (rest : List Char) (hr : rest.head? ≠ some '*') :
    atomsOf (p.text ++ rest) = p.atoms ++ atomsOf rest := by
  induction p generalizing stops rest with
  | nil => rfl
  | sign c next ih =>
    obtain ⟨⟨hq, -, -⟩, -, hs, hn⟩ := h
    have hh : c = '/' → (next.text ++ rest).head? ≠ some '*' := by
      intro hc
      cases ht : next.text with
      | nil => exact hr
      | cons d ds =>
        rw [ht] at hs
        exact hs hc
    rw [text, cons_append, atomsOf_cons hq hh, ih hn rest hr]
    rfl
  | escape c next => exact absurd h.1 (by decide)
  | quoted quote inside next ih =>
    rw [text, append_assoc, atomsOf_quotedText h.1.1 h.1.2, ih h.2 rest hr]
    rfl
  | comment inside next ih =>
    rw [text, append_assoc, atomsOf_commentText h.1, ih h.2 rest hr]
    rfl
  | nested bracket inside next ihinside ihnext =>
    have hcl : (bracket.closing :: (next.text ++ rest)).head? ≠ some '*' := by
      simpa using closing_ne_star bracket
    rw [text, append_assoc, cons_append, cons_append,
      atomsOf_cons (opening_not_mem_quotes bracket) fun hsl => absurd hsl (opening_ne_slash bracket),
      ihinside h.2.1 _ hcl,
      atomsOf_cons (closing_not_mem_quotes bracket) fun hsl => absurd hsl (closing_ne_slash bracket),
      ihnext h.2.2 rest hr]
    simp [atoms]

theorem atomsOf_text (h : p.WellFormed .ordinary stops) : atomsOf p.text = p.atoms := by
  have ha := atomsOf_append h [] (by simp)
  rw [append_nil] at ha
  rw [ha]
  exact append_nil _

/-! ### Searches -/

theorem depthAfter_opening (depth : Nat) (bracket : Bracket) : depthAfter depth bracket.opening = depth + 1 := by
  cases bracket <;> rfl

theorem depthAfter_closing (depth : Nat) (bracket : Bracket) : depthAfter (depth + 1) bracket.closing = depth := by
  cases bracket <;> rfl

theorem depthAfter_sign (depth : Nat) (h : c ∉ brackets) : depthAfter depth c = depth := by
  simp only [brackets, mem_cons, not_mem_nil, or_false, not_or] at h
  simp [depthAfter, h]

theorem splitTopLevel?_sign {depth : Nat} (h : depth = 0 → c ∉ stops) (rest : List Atom) :
    splitTopLevel? stops depth (.sign c :: rest) =
      (splitTopLevel? stops (depthAfter depth c) rest).map fun split => (.sign c :: split.1, split.2) := by
  have hp : ¬ (depth == 0 && stops.contains c) = true := by simpa using h
  rw [splitTopLevel?, if_neg hp]

/-- The search for a stop passes over a stretch: inside brackets always, and outside if the stretch has no stop. -/
theorem splitTopLevel?_atoms (h : p.WellFormed .ordinary others) (depth : Nat) (hs : depth = 0 → stops ⊆ others)
    (rest : List Atom) : splitTopLevel? stops depth (p.atoms ++ rest) =
      (splitTopLevel? stops depth rest).map fun split => (p.atoms ++ split.1, split.2) := by
  induction p generalizing others depth rest with
  | nil => simp [atoms]
  | sign c next ih =>
    obtain ⟨⟨-, hb, hst⟩, -, -, hn⟩ := h
    have hp : depth = 0 → c ∉ stops := fun hd hc => hst (hs hd hc)
    simp [atoms, splitTopLevel?_sign hp, depthAfter_sign depth hb, ih hn depth hs, Function.comp_def]
  | escape c next => exact absurd h.1 (by decide)
  | quoted quote inside next ih => simp [atoms, splitTopLevel?, ih h.2 depth hs, Function.comp_def]
  | comment inside next ih => simp [atoms, splitTopLevel?, ih h.2 depth hs, Function.comp_def]
  | nested bracket inside next ihinside ihnext =>
    have hp : depth = 0 → bracket.opening ∉ stops := fun hd hc => h.1 (hs hd hc)
    have hcl : depth + 1 = 0 → bracket.closing ∉ stops := fun hd => absurd hd (Nat.succ_ne_zero depth)
    simp [atoms, splitTopLevel?_sign hp, splitTopLevel?_sign hcl, depthAfter_opening, depthAfter_closing,
      ihinside h.2.1, ihnext h.2.2 depth hs, Function.comp_def]

/-- The search for the end of a block passes over a stretch. -/
theorem splitBlock?_atoms (h : p.WellFormed .ordinary stops) (depth : Nat) (rest : List Atom) :
    splitBlock? depth (p.atoms ++ rest) = (splitBlock? depth rest).map fun split => (p.atoms ++ split.1, split.2) := by
  induction p generalizing stops depth rest with
  | nil => simp [atoms]
  | sign c next ih =>
    obtain ⟨⟨-, hb, -⟩, -, -, hn⟩ := h
    simp only [brackets, mem_cons, not_mem_nil, or_false, not_or] at hb
    simp [atoms, splitBlock?, hb, ih hn, Function.comp_def]
  | escape c next => exact absurd h.1 (by decide)
  | quoted quote inside next ih => simp [atoms, splitBlock?, ih h.2, Function.comp_def]
  | comment inside next ih => simp [atoms, splitBlock?, ih h.2, Function.comp_def]
  | nested bracket inside next ihinside ihnext =>
    cases bracket <;>
      simp [atoms, splitBlock?, Bracket.opening, Bracket.closing, ihinside h.2.1, ihnext h.2.2, Function.comp_def]

/-! ### Blanks at the end -/

/-- A stretch without the blanks at its end. -/
def trimEnd : Stretch → Stretch
  | nil => nil
  | sign c rest => if isBlank c = true ∧ rest.trimEnd = nil then nil else sign c rest.trimEnd
  | escape c rest => escape c rest.trimEnd
  | quoted quote inside rest => quoted quote inside rest.trimEnd
  | comment inside rest => comment inside rest.trimEnd
  | nested bracket inside rest => nested bracket inside rest.trimEnd

theorem text_eq_nil : p.text = [] ↔ p = nil := by
  cases p <;> simp [text, quotedText, commentText]

theorem isBlank_quote {quote : Char} (h : quote ∈ quotes) : isBlank quote = false := by
  simp only [quotes, mem_cons, not_mem_nil, or_false] at h
  rcases h with rfl | rfl <;> decide

theorem isBlank_bracket {c : Char} (h : c ∈ brackets) : isBlank c = false := by
  simp only [brackets, mem_cons, not_mem_nil, or_false] at h
  rcases h with rfl | rfl | rfl | rfl | rfl | rfl <;> decide

theorem opening_mem_brackets (bracket : Bracket) : bracket.opening ∈ brackets := by
  cases bracket <;> decide

theorem closing_mem_brackets (bracket : Bracket) : bracket.closing ∈ brackets := by
  cases bracket <;> decide

theorem text_trimEnd (h : p.WellFormed .ordinary stops) : p.trimEnd.text = trimEndChars p.text := by
  induction p with
  | nil => rfl
  | sign c rest ih =>
    have hr : rest.trimEnd = nil ↔ trimEndChars rest.text = [] := by rw [← ih h.2.2.2, text_eq_nil]
    rw [trimEnd, text, trimEndChars_cons]
    by_cases hc : isBlank c = true ∧ rest.trimEnd = nil
    · rw [if_pos hc, if_pos ⟨hc.1, hr.mp hc.2⟩]
      rfl
    · rw [if_neg hc, if_neg fun ht => hc ⟨ht.1, hr.mpr ht.2⟩, ← ih h.2.2.2]
      rfl
  | escape c rest => exact absurd h.1 (by decide)
  | quoted quote inside rest ih =>
    have hs : ∀ tail : List Char, quotedText quote inside ++ tail = (quote :: inside) ++ quote :: tail := by
      simp [quotedText]
    rw [trimEnd, text, text, hs, hs, trimEndChars_append_cons _ (isBlank_quote h.1.1), ih h.2]
  | comment inside rest ih =>
    have hs : ∀ tail : List Char, commentText inside ++ tail = ('/' :: '*' :: inside ++ ['*']) ++ '/' :: tail := by
      simp [commentText]
    rw [trimEnd, text, text, hs, hs, trimEndChars_append_cons _ (by decide), ih h.2]
  | nested bracket inside rest _ ih =>
    rw [trimEnd, text, text, trimEndChars_append_cons _ (isBlank_bracket (closing_mem_brackets bracket)), ih h.2.2]

theorem WellFormed.trimEnd (h : p.WellFormed .ordinary stops) : p.trimEnd.WellFormed .ordinary stops := by
  induction p with
  | nil => trivial
  | sign c rest ih =>
    obtain ⟨hsi, hsl, hs, hr⟩ := h
    unfold Stretch.trimEnd
    split_ifs with hc
    · trivial
    · refine ⟨hsi, hsl, fun hc => ?_, ih hr⟩
      have hst : rest.trimEnd.text <+: rest.text := text_trimEnd hr ▸ trimEndChars_isPrefix rest.text
      intro hh
      obtain ⟨tail, ht⟩ := head?_eq_some_iff.mp hh
      obtain ⟨more, hm⟩ := hst
      rw [← hm, ht] at hs
      exact hs hc rfl
  | escape c rest => exact absurd h.1 (by decide)
  | quoted quote inside rest ih => exact ⟨h.1, ih h.2⟩
  | comment inside rest ih => exact ⟨h.1, ih h.2⟩
  | nested bracket inside rest _ ih => exact ⟨h.1, h.2.1, ih h.2.2⟩

/-- Blanks are dropped at the end of the last stretch that is more than blanks. -/
theorem trimEnd_append (p : Stretch) (hq : q.trimEnd ≠ nil) : (p.append q).trimEnd = p.append q.trimEnd := by
  have hn : ∀ rest : Stretch, rest.append q.trimEnd ≠ nil := by
    intro rest
    cases rest with
    | nil => exact hq
    | sign | escape | quoted | comment | nested => simp [append]
  induction p with
  | nil => rfl
  | sign c rest ih => simp [append, trimEnd, ih, hn]
  | escape | quoted | comment | nested => simp_all [append, trimEnd]

theorem trimEnd_sign (h : isBlank c = false) (p : Stretch) : (sign c p).trimEnd = sign c p.trimEnd := by
  simp [trimEnd, h]

/-- Behind blanks the reader goes on at the first character that is not blank. -/
theorem dropBlankAtoms_trimEnd {blanks : List Char} (hb : ∀ c ∈ blanks, isBlank c)
    (h : Inked p.trimEnd.text) : dropBlankAtoms (behind blanks p).trimEnd.atoms = p.trimEnd.atoms := by
  induction blanks with
  | nil =>
    change dropBlankAtoms p.trimEnd.atoms = p.trimEnd.atoms
    cases hp : p.trimEnd with
    | nil => rfl
    | sign c rest =>
      rw [hp] at h
      have hc : isBlank c = false := h c rfl
      simp [dropBlankAtoms, atoms, hc]
    | escape c rest => simp [dropBlankAtoms, atoms, show isBlank '\\' = false by decide]
    | quoted | comment => rfl
    | nested bracket inside rest =>
      have ho : isBlank bracket.opening = false := isBlank_bracket (opening_mem_brackets bracket)
      simp [dropBlankAtoms, atoms, ho]
  | cons c blanks ih =>
    have hr := ih fun d hd => hb d (mem_cons_of_mem c hd)
    have hc : isBlank c := hb c mem_cons_self
    change dropBlankAtoms (sign c (behind blanks p)).trimEnd.atoms = _
    rw [← hr, trimEnd]
    split_ifs with hn
    · rw [hn.2]
    · simp [dropBlankAtoms, atoms, hc]

end Stretch

end Polyview.Css
