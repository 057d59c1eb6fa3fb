import Polyview.Proofs.Text.Entity
import Polyview.Script.Scanner

/-! # Quoted texts are read back

A text in double quotes is read as a string with this text (`scanToken_quote`). In a template literal, an escaped text
is read as the text with its line breaks folded (`cooked?_escapeTemplateChars`), and the literal ends behind it
(`splitTemplate?_escapeTemplateChars`). A text that is put there as it is reads back only if it holds neither escapes nor
carriage returns, and nothing that ends the literal (`literalPart_eq_self_iff`, `cooked?_eq_self_iff`). -/

namespace Polyview.Script

open List Text

variable {c : Char} {cs rest : List Char} {codes : List ℕ} {legacy : Bool} {n : ℕ} {stop : Char} {text : List Char}

/-! ### Escapes -/

theorem cook_cons (h : c ≠ '\\') (cs : List Char) : cook .plain (c :: cs) = Cooked.push c.toNat (cook .plain cs) := by
  rw [cook.eq_def]
  exact if_pos (bne_iff_ne.mpr h)

theorem push_eq_some {rest : Option Cooked} (h : Cooked.push n rest = some (codes, legacy)) :
    ∃ others, rest = some (others, legacy) ∧ codes = n :: others := by
  obtain ⟨⟨others, found⟩, hr, heq⟩ := Option.map_eq_some_iff.mp h
  cases heq
  exact ⟨others, hr, rfl⟩

theorem pushLegacy_eq_some {rest : Option Cooked} (h : Cooked.pushLegacy n rest = some (codes, legacy)) :
    ∃ others found, rest = some (others, found) ∧ codes = n :: others := by
  obtain ⟨⟨others, found⟩, hr, heq⟩ := Option.map_eq_some_iff.mp h
  cases heq
  exact ⟨others, found, hr, rfl⟩

/-- Reading escapes makes a text shorter. -/
theorem length_of_cook {mode : EscapeMode} (h : cook mode cs = some (codes, legacy)) :
    codes.length ≤ cs.length ∧ ('\\' ∈ cs → codes.length < cs.length) := by
  fun_induction cook mode cs generalizing codes legacy
  all_goals try cases h
  all_goals first
    | (obtain ⟨others, ho, rfl⟩ := push_eq_some h)
    | (obtain ⟨others, found, ho, rfl⟩ := pushLegacy_eq_some h)
    | skip
  all_goals grind

/-- A text without escapes is read as it is. -/
theorem cook_plain (h : '\\' ∉ cs) : cook .plain cs = some (cs.map Char.toNat, false) := by
  induction cs with
  | nil => rfl
  | cons c cs ih =>
    rw [mem_cons, not_or] at h
    rw [cook_cons fun heq => h.1 heq.symm, ih h.2]
    rfl

theorem not_isSurrogate (c : Char) : isSurrogate c.toNat = false := by
  have hv : c.toNat < 0xD800 ∨ 0xDFFF < c.toNat ∧ c.toNat < 0x110000 := c.valid
  simp only [isSurrogate, Bool.and_eq_false_iff, decide_eq_false_iff_not]
  omega

theorem joinSurrogates_toNat (cs : List Char) : joinSurrogates (cs.map Char.toNat) = cs.map Char.toNat := by
  induction cs with
  | nil => rfl
  | cons c cs ih =>
    cases cs with
    | nil => rfl
    | cons d ds =>
      have hv := not_isSurrogate c
      have hh : ¬ (0xD800 ≤ c.toNat ∧ c.toNat ≤ 0xDBFF) := by
        simp only [isSurrogate, Bool.and_eq_false_iff, decide_eq_false_iff_not] at hv
        omega
      rw [map_cons, map_cons, joinSurrogates, if_neg (by grind)]
      rw [map_cons] at ih
      rw [ih]

theorem length_joinSurrogates_le (codes : List ℕ) : (joinSurrogates codes).length ≤ codes.length := by
  fun_induction joinSurrogates codes with
  | case1 => exact Nat.le_refl _
  | case2 => exact Nat.le_refl _
  | case3 n m rest _ ih =>
    simp only [length_cons]
    omega
  | case4 n m rest _ ih =>
    simp only [length_cons] at ih ⊢
    omega

theorem textOfCodes_toNat (cs : List Char) : textOfCodes (cs.map Char.toNat) = String.ofList cs := by
  have hn : (cs.map Char.toNat).any isSurrogate = false := by
    simp [not_isSurrogate]
  unfold textOfCodes
  simp only [joinSurrogates_toNat, hn, Bool.false_and, Bool.or_false]
  congr 1
  induction cs with
  | nil => rfl
  | cons c cs ih =>
    rw [map_cons, any_cons, Bool.or_eq_false_iff] at hn
    rw [map_cons, flatMap_cons, ih hn.2, not_isSurrogate]
    simp

/-! ### Double quotes -/

theorem cook_unicode (h : n < 32) (cs : List Char) :
    cook .plain ('\\' :: 'u' :: '0' :: '0' :: hexDigit (n / 16) :: hexDigit (n % 16) :: cs) =
      Cooked.push n (cook .plain cs) := by
  have hc : ∀ n < 32, hexNumber? ['0', '0', hexDigit (n / 16), hexDigit (n % 16)] = some n := by decide
  rw [cook.eq_def]
  simp [hc n h]

theorem cook_quoteChar (c : Char) (cs : List Char) :
    cook .plain (quoteChar c ++ cs) = Cooked.push c.toNat (cook .plain cs) := by
  unfold quoteChar
  split
  · rfl
  · rfl
  · rfl
  · rfl
  · rfl
  · next hb _ _ _ =>
    split
    · next hc =>
      rw [beq_iff_eq.mp hc]
      rfl
    split
    · next hc =>
      rw [beq_iff_eq.mp hc]
      rfl
    split
    · next hc => exact cook_unicode hc cs
    · exact cook_cons hb cs

theorem cook_flatMap_quoteChar (cs : List Char) :
    cook .plain (cs.flatMap quoteChar) = some (cs.map Char.toNat, false) := by
  induction cs with
  | nil => rfl
  | cons c cs ih =>
    rw [flatMap_cons, cook_quoteChar, ih]
    rfl

/-- A piece of a string that ends outside of an escape. -/
def IsStringPiece (piece : List Char) : Prop :=
  ∀ cs, splitQuoted? '"' false (piece ++ cs) =
    (splitQuoted? '"' false cs).map fun (inside, rest) => (piece ++ inside, rest)

theorem isStringPiece_append {piece more : List Char} (h : IsStringPiece piece) (hm : IsStringPiece more) :
    IsStringPiece (piece ++ more) := by
  intro cs
  rw [append_assoc, h, hm, Option.map_map]
  simp [Function.comp_def]

theorem isStringPiece_char (hq : c ≠ '"') (hf : c ≠ '\n') (hr : c ≠ '\r') (he : c ≠ '\\') :
    IsStringPiece [c] := by
  intro cs
  have hp : (c == '\\') = false := beq_false_of_ne he
  simp [splitQuoted?, hq, hf, hr, hp]

theorem isStringPiece_escape (hr : c ≠ '\r') : IsStringPiece ['\\', c] := by
  intro cs
  simp [splitQuoted?, hr, Function.comp_def]

theorem isStringPiece_quoteChar (c : Char) : IsStringPiece (quoteChar c) := by
  unfold quoteChar
  split
  case h_6 hq hb hf hr _ =>
    split
    · exact isStringPiece_escape (by decide)
    split
    · exact isStringPiece_escape (by decide)
    split
    · next hc =>
      have hds : ∀ n < 32, ['0', '0', hexDigit (n / 16), hexDigit (n % 16)].all
          (fun digit => digit != '"' && digit != '\n' && digit != '\r' && digit != '\\') = true := by decide
      have hd (digit : Char) (hm : digit ∈ ['0', '0', hexDigit (c.toNat / 16), hexDigit (c.toNat % 16)]) :
          IsStringPiece [digit] := by
        have hp := all_eq_true.mp (hds _ hc) digit hm
        simp only [Bool.and_eq_true, bne_iff_ne] at hp
        obtain ⟨⟨⟨hq, hf⟩, hr⟩, he⟩ := hp
        exact isStringPiece_char hq hf hr he
      change IsStringPiece
        (['\\', 'u'] ++ (['0'] ++ (['0'] ++ ([hexDigit (c.toNat / 16)] ++ [hexDigit (c.toNat % 16)]))))
      refine isStringPiece_append (isStringPiece_escape (by decide)) ?_
      refine isStringPiece_append (hd _ (by simp)) (isStringPiece_append (hd _ (by simp)) ?_)
      exact isStringPiece_append (hd _ (by simp)) (hd _ (by simp))
    · exact isStringPiece_char hq hf hr hb
  all_goals exact isStringPiece_escape (by decide)

theorem splitQuoted?_flatMap_quoteChar (cs rest : List Char) :
    splitQuoted? '"' false (cs.flatMap quoteChar ++ '"' :: rest) = some (cs.flatMap quoteChar, rest) := by
  induction cs with
  | nil => rfl
  | cons c cs ih =>
    rw [flatMap_cons, append_assoc, isStringPiece_quoteChar, ih]
    rfl

/-- **A text in quotes is read as a string** with this text. -/
theorem scanToken_quote (text : String) (rest : List Char) : scanToken ((quote text).toList ++ rest) =
    ⟨.string text false, byteLength (text.toList.flatMap quoteChar) + 2, rest⟩ := by
  have hq : (quote text).toList ++ rest = '"' :: (text.toList.flatMap quoteChar ++ '"' :: rest) := by
    simp [quote]
  rw [hq]
  change scanString '"' _ = _
  simp [scanString, splitQuoted?_flatMap_quoteChar, cook_flatMap_quoteChar, textOfCodes_toNat]

/-! ### Template literals -/

/-- What is written of a template literal up to its end, a substitution or the given sign, escapes apart. -/
def literalPart (stop : Char) : (escaped : Bool) → List Char → List Char
  | _, [] => []
  | true, c :: cs => c :: literalPart stop false cs
  | false, c :: cs =>
    if c = '`' ∨ c = stop ∨ c = '$' ∧ cs.head? = some '\x7b' then []
    else c :: literalPart stop (c == '\\') cs

/-- The text that a part of a template literal stands for. -/
def cooked? (raw : List Char) : Option (List Char) :=
  match cook .plain (foldBreaks raw) with
  | some (codes, false) =>
    if (joinSurrogates codes).any isSurrogate then none else some ((joinSurrogates codes).map Char.ofNat)
  | _ => none

theorem literalPart_isPrefix (stop : Char) (escaped : Bool) (cs : List Char) : literalPart stop escaped cs <+: cs := by
  fun_induction literalPart stop escaped cs with
  | case1 => exact prefix_rfl
  | case2 c cs ih => exact cons_prefix_cons.mpr ⟨rfl, ih⟩
  | case3 => exact nil_prefix
  | case4 c cs _ ih => exact cons_prefix_cons.mpr ⟨rfl, ih⟩

theorem cooked?_of_cook (h : cook .plain (foldBreaks cs) = some (rest.map Char.toNat, false)) :
    cooked? cs = some rest := by
  have hn : (rest.map Char.toNat).any isSurrogate = false := by simp [not_isSurrogate]
  rw [cooked?, h]
  simp only [joinSurrogates_toNat, hn]
  simp [Function.comp_def]

theorem length_of_cooked? (h : cooked? cs = some text) :
    text.length ≤ cs.length ∧ ('\\' ∈ foldBreaks cs → text.length < cs.length) := by
  unfold cooked? at h
  split at h
  · next codes hc =>
    split at h
    · cases h
    · cases h
      obtain ⟨hle, hl⟩ := length_of_cook hc
      have hj := length_joinSurrogates_le codes
      have hf := length_foldBreaks_le cs
      rw [length_map]
      exact ⟨by omega, fun hm => by have := hl hm; omega⟩
  · cases h

theorem mem_foldBreaks {d : Char} (hd : d ≠ '\r') (hf : d ≠ '\n') : d ∈ foldBreaks cs ↔ d ∈ cs := by
  rw [foldBreaks]
  generalize false = behind
  induction cs generalizing behind with
  | nil => simp [foldBreaksFrom]
  | cons c cs ih =>
    rw [foldBreaksFrom]
    split
    · next hc => simp [ih, hc, hd, hf]
    · split
      · next hc =>
        rw [Bool.and_eq_true, decide_eq_true_eq] at hc
        simp [ih, hc.2, hf]
      · simp [ih]

/-- A part of a literal stands for itself exactly if it holds neither escapes nor carriage returns. -/
theorem cooked?_eq_self_iff : cooked? cs = some cs ↔ '\\' ∉ cs ∧ '\r' ∉ cs := by
  constructor
  · intro h
    have he : '\\' ∉ cs := by
      intro hm
      have := (length_of_cooked? h).2 ((mem_foldBreaks (by decide) (by decide)).mpr hm)
      omega
    refine ⟨he, foldBreaks_eq_self.mp ?_⟩
    have hp : '\\' ∉ foldBreaks cs := fun hm => he ((mem_foldBreaks (by decide) (by decide)).mp hm)
    have hc : cooked? cs = some (foldBreaks cs) := cooked?_of_cook (cook_plain hp)
    exact Option.some.inj (hc.symm.trans h)
  · rintro ⟨he, hr⟩
    refine cooked?_of_cook ?_
    rw [foldBreaks_eq_self.mpr hr]
    exact cook_plain he

/-- Text that nothing in it ends, inside of a template literal. -/
structure Unended (stop : Char) (cs : List Char) : Prop where
  backtick : '`' ∉ cs
  stop : stop ∉ cs
  substitution : ¬ ['$', '\x7b'] <:+: cs

theorem unended_cons : Unended stop (c :: cs) ↔
    ¬ (c = '`' ∨ c = stop ∨ c = '$' ∧ cs.head? = some '\x7b') ∧ Unended stop cs := by
  have hw : ['$', '\x7b'] <:+: c :: cs ↔ (c = '$' ∧ cs.head? = some '\x7b') ∨ ['$', '\x7b'] <:+: cs := by
    rw [infix_cons_iff]
    refine or_congr_left ?_
    cases cs with
    | nil => simp [prefix_cons_iff]
    | cons d ds => simp [cons_prefix_cons, eq_comm]
  constructor
  · rintro ⟨hb, hs, hsu⟩
    rw [mem_cons, not_or] at hb hs
    rw [hw, not_or] at hsu
    refine ⟨?_, hb.2, hs.2, hsu.2⟩
    rintro (heq | heq | heq)
    · exact hb.1 heq.symm
    · exact hs.1 heq.symm
    · exact hsu.1 heq
  · rintro ⟨hc, hb, hs, hsu⟩
    simp only [not_or] at hc
    refine ⟨?_, ?_, ?_⟩
    · simp [hb, Ne.symm hc.1]
    · simp [hs, Ne.symm hc.2.1]
    · rw [hw, not_or]
      exact ⟨hc.2.2, hsu⟩

/-- Where the rest of a literal ends a part. -/
structure Ends (stop : Char) (rest : List Char) : Prop where
  part : literalPart stop false rest = []
  noBrace : rest.head? ≠ some '\x7b'

theorem head?_append_iff {part rest : List Char} (h : rest.head? ≠ some '\x7b') :
    (part ++ rest).head? = some '\x7b' ↔ part.head? = some '\x7b' := by
  cases part with
  | nil => simp [h]
  | cons c part => simp

/-- Without escapes, a part of a literal ends at the first sign that can end it. -/
theorem literalPart_eq_self_iff (hr : Ends stop rest) (he : '\\' ∉ text) :
    literalPart stop false (text ++ rest) = text ↔ Unended stop text := by
  induction text with
  | nil => exact iff_of_true hr.part ⟨by simp, by simp, by simp⟩
  | cons c text ih =>
    rw [mem_cons, not_or] at he
    have hp : (c == '\\') = false := beq_false_of_ne fun heq => he.1 heq.symm
    rw [unended_cons, ← ih he.2, cons_append, literalPart, hp]
    simp only [head?_append_iff hr.noBrace]
    split
    · next hs => simp [hs]
    · next hs => simp [hs]

/-! ### Escaped texts -/

/-- The characters that are escaped where the given text follows. -/
def isEscaped (c : Char) (cs : List Char) : Bool := c == '\\' || c == '`' || c == '$' && cs.head? == some '\x7b'

theorem escapeTemplateChars_cons (c : Char) (cs : List Char) : escapeTemplateChars (c :: cs) =
    if isEscaped c cs then '\\' :: c :: escapeTemplateChars cs else c :: escapeTemplateChars cs := by
  rw [escapeTemplateChars, isEscaped]
  by_cases h : (c == '\\' || c == '`') = true
  · simp [h]
  · simp only [h, Bool.false_or, Bool.false_eq_true, if_false]

theorem ne_of_isEscaped (h : isEscaped c cs) : c ≠ '\x7b' ∧ c ≠ '\r' ∧ c ≠ '\n' := by
  simp only [isEscaped, Bool.or_eq_true, Bool.and_eq_true, beq_iff_eq] at h
  rcases h with (rfl | rfl) | ⟨rfl, -⟩
  all_goals decide

theorem head?_escapeTemplateChars (cs : List Char) :
    (escapeTemplateChars cs).head? = some '\x7b' ↔ cs.head? = some '\x7b' := by
  cases cs with
  | nil => rfl
  | cons c cs =>
    rw [escapeTemplateChars_cons]
    split
    · next he => simp [(ne_of_isEscaped he).1]
    · rfl

theorem literalPart_escapeTemplateChars (hr : Ends stop rest) (he : stop ≠ '\\') (hs : stop ∉ text) :
    literalPart stop false (escapeTemplateChars text ++ rest) = escapeTemplateChars text := by
  induction text with
  | nil => exact hr.part
  | cons c text ih =>
    rw [mem_cons, not_or] at hs
    rw [escapeTemplateChars_cons]
    split
    · simp [literalPart, Ne.symm he, ih hs.2]
    · next hp =>
      simp only [isEscaped, Bool.or_eq_true, Bool.and_eq_true, beq_iff_eq, not_or] at hp
      have hf : (c == '\\') = false := beq_false_of_ne hp.1.1
      have hh : (escapeTemplateChars text ++ rest).head? = some '\x7b' ↔ text.head? = some '\x7b' :=
        (head?_append_iff hr.noBrace).trans (head?_escapeTemplateChars text)
      rw [cons_append, literalPart, hf, ih hs.2, if_neg]
      rintro (heq | heq | heq)
      · exact hp.1.2 heq
      · exact hs.1 heq.symm
      · exact hp.2 ⟨heq.1, hh.mp heq.2⟩

theorem cook_escapeTemplateChars (text : List Char) :
    cook .plain (escapeTemplateChars text) = some (text.map Char.toNat, false) := by
  induction text with
  | nil => rfl
  | cons c text ih =>
    rw [escapeTemplateChars_cons]
    split
    · next he =>
      simp only [isEscaped, Bool.or_eq_true, Bool.and_eq_true, beq_iff_eq] at he
      have hr : cook .plain ('\\' :: c :: escapeTemplateChars text) =
          Cooked.push c.toNat (cook .plain (escapeTemplateChars text)) := by
        rcases he with (rfl | rfl) | ⟨rfl, -⟩ <;> rfl
      rw [hr, ih]
      rfl
    · next hp =>
      simp only [isEscaped, Bool.or_eq_true, beq_iff_eq, not_or] at hp
      rw [cook_cons hp.1.1, ih]
      rfl

theorem head?_foldBreaks (cs : List Char) : (foldBreaks cs).head? = some '\x7b' ↔ cs.head? = some '\x7b' := by
  cases cs with
  | nil => rfl
  | cons c cs =>
    by_cases hc : c = '\r'
    · simp [foldBreaks, foldBreaksFrom, hc]
    · simp [foldBreaks_cons hc]

theorem foldBreaksFrom_escapeTemplateChars (behind : Bool) (text : List Char) :
    foldBreaksFrom behind (escapeTemplateChars text) = escapeTemplateChars (foldBreaksFrom behind text) := by
  induction text generalizing behind with
  | nil => rfl
  | cons c text ih =>
    have hh : isEscaped c (foldBreaksFrom false text) = isEscaped c text := by
      have := head?_foldBreaks text
      rw [foldBreaks] at this
      rw [Bool.eq_iff_iff]
      simp only [isEscaped, Bool.or_eq_true, Bool.and_eq_true, beq_iff_eq, this]
    rw [escapeTemplateChars_cons]
    split
    · next he =>
      obtain ⟨-, hr, hf⟩ := ne_of_isEscaped he
      simp [foldBreaksFrom, hr, hf, escapeTemplateChars_cons, hh, he, ih]
    · next hp =>
      rw [foldBreaksFrom, foldBreaksFrom]
      split
      · rw [ih, escapeTemplateChars_cons, if_neg (by simp [isEscaped])]
      · split
        · exact ih false
        · rw [ih, escapeTemplateChars_cons, hh, if_neg hp]

/-- **An escaped text is read as the text**, with its line breaks folded. -/
theorem cooked?_escapeTemplateChars (text : List Char) :
    cooked? (escapeTemplateChars text) = some (foldBreaks text) := by
  refine cooked?_of_cook ?_
  rw [foldBreaks, foldBreaksFrom_escapeTemplateChars]
  exact cook_escapeTemplateChars _

/-- An escaped text is one part of a literal, which ends behind it. -/
theorem splitTemplate?_escapeTemplateChars (text rest : List Char) :
    splitTemplate? false (escapeTemplateChars text ++ '`' :: rest) = some (escapeTemplateChars text, true, rest) := by
  induction text with
  | nil => rfl
  | cons c text ih =>
    rw [escapeTemplateChars_cons]
    split
    · simp [splitTemplate?, ih]
    · next hp =>
      simp only [isEscaped, Bool.or_eq_true, Bool.and_eq_true, beq_iff_eq, not_or] at hp
      have hb : (c == '`') = false := beq_false_of_ne hp.1.2
      have he : (c == '\\') = false := beq_false_of_ne hp.1.1
      have hh : c = '$' → (escapeTemplateChars text ++ '`' :: rest).head? ≠ some '\x7b' := by
        intro hd heq
        rw [head?_append_iff (by simp), head?_escapeTemplateChars] at heq
        exact hp.2 ⟨hd, heq⟩
      rw [cons_append, splitTemplate?.eq_def]
      simp only [hb, he, Bool.false_eq_true, if_false]
      split
      · next hd =>
        split
        · next heq => exact absurd (by rw [heq]; rfl) (hh (beq_iff_eq.mp hd))
        · rw [ih]
          rfl
      · rw [ih]
        rfl

/-! ### Escaping by replacements -/

theorem replaceFrom_substitution (h : c ≠ '$') (rep cs : List Char) :
    replaceFrom ['$', '\x7b'] rep 0 (c :: cs) = c :: replaceFrom ['$', '\x7b'] rep 0 cs := by
  rw [replaceFrom, if_neg]
  simp [List.isPrefixOf, Ne.symm h]

/-- A text in which backslashes and backticks are escaped, one after the other. -/
def withEscapes (text : List Char) : List Char :=
  (text.flatMap (inPlaceOf '\\' ['\\', '\\'])).flatMap (inPlaceOf '`' ['\\', '`'])

theorem withEscapes_cons (c : Char) (text : List Char) : withEscapes (c :: text) =
    if c = '\\' ∨ c = '`' then '\\' :: c :: withEscapes text else c :: withEscapes text := by
  by_cases he : c = '\\'
  · simp [withEscapes, inPlaceOf, he]
  · by_cases hb : c = '`' <;> simp [withEscapes, inPlaceOf, he, hb]

/-- Escaping substitutions last does not touch the escapes that are there: a dollar sign and a brace next to each other
were so in the text. -/
theorem replaceFrom_withEscapes (text : List Char) :
    replaceFrom ['$', '\x7b'] ['\\', '$', '\x7b'] 0 (withEscapes text) = escapeTemplateChars text := by
  induction text with
  | nil => rfl
  | cons c text ih =>
    rw [withEscapes_cons, escapeTemplateChars_cons]
    by_cases he : c = '\\' ∨ c = '`'
    · have hes : isEscaped c text := by simp [isEscaped, he]
      have hd : c ≠ '$' := by rcases he with rfl | rfl <;> decide
      rw [if_pos he, if_pos hes, replaceFrom_substitution (by decide), replaceFrom_substitution hd, ih]
    · rw [if_neg he]
      by_cases hs : c = '$' ∧ text.head? = some '\x7b'
      · obtain ⟨rfl, hh⟩ := hs
        obtain ⟨more, rfl⟩ := head?_eq_some_iff.mp hh
        rw [withEscapes_cons, if_neg (by decide), replaceFrom_substitution (by decide)] at ih
        rw [if_pos (by simp [isEscaped]), ← ih, withEscapes_cons, if_neg (by decide)]
        rfl
      · have hp : isEscaped c text = false := by
          simpa [isEscaped] using ⟨not_or.mp he, not_and.mp hs⟩
        rw [hp, replaceFrom, if_neg, ih]
        · rfl
        · rw [List.isPrefixOf_iff_prefix, cons_prefix_cons]
          rintro ⟨rfl, back, heq⟩
          refine hs ⟨rfl, ?_⟩
          cases text with
          | nil => cases heq
          | cons d more =>
            rw [withEscapes_cons] at heq
            split at heq
            · cases heq
            · rw [(List.cons.inj heq).1]
              rfl

/-- **Escaping for template literals can be undone**, and an escaped text does not end the literal. Three replacements
in a row do it in one pass. -/
theorem template_escape_contained (text : String) (h : '\r' ∉ text.toList) : escapeTemplate text =
        replaceAll "$\x7b" "\\$\x7b" (replaceAll "`" "\\`" (replaceAll "\\" "\\\\" text)) ∧
      (∀ rest, splitTemplate? false ((escapeTemplate text).toList ++ '`' :: rest) =
        some ((escapeTemplate text).toList, true, rest)) ∧
      cooked? (escapeTemplate text).toList = some text.toList := by
  have hc : (escapeTemplate text).toList = escapeTemplateChars text.toList := String.toList_ofList
  refine ⟨?_, fun rest => ?_, ?_⟩
  · rw [escapeTemplate, ← replaceFrom_withEscapes, withEscapes, ← replaceFrom_singleton, ← replaceFrom_singleton]
    simp only [replaceAll, String.toList_ofList]
    rfl
  · rw [hc, splitTemplate?_escapeTemplateChars]
  · rw [hc, cooked?_escapeTemplateChars, foldBreaks_eq_self.mpr h]

/-- Signs next to each other, of which each is escaped on its own. -/
theorem template_escape_contained_signs : escapeTemplate "\\$$\x7b`\x7d" = "\\\\$\\$\x7b\\`\x7d" ∧
    cooked? "\\\\$\\$\x7b\\`\x7d".toList = some "\\$$\x7b`\x7d".toList :=
  ⟨by decide, (template_escape_contained "\\$$\x7b`\x7d" (by decide)).2.2⟩

end Polyview.Script
