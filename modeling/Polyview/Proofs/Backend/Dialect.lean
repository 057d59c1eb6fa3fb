import Polyview.Proofs.Backend.Frames
import Polyview.Proofs.Script.Quotation
import Polyview.Proofs.Script.Scan
import Polyview.Proofs.Text.JsxText

/-! # How targets read static strings

The text between tags, the values of attributes, the words of a class and the names of slots, as each target reads them
in its files. JSX and Svelte end text at a tag or a brace, and Lit at a tag, at a substitution and at the end of the
template literal; a `<` always starts a tag. What is written as a static string is read back as it was exactly if some
signs are not in it (`readText_iff`, `readValue_iff`, `readSlot_iff`). -/

namespace Polyview

open List Script Text

/-- A static string as it is read: its characters, in which there may be references. -/
structure Literal where
  chars : List Char
  hasReferences : Bool
deriving DecidableEq

/-- The text that a static string stands for. -/
def Literal.denotes (e : Entities) (l : Literal) : List Char := if l.hasReferences then e.decode l.chars else l.chars

/-- Reads a word in code: a name or a string. -/
def readWord (cs : List Char) : Option Literal :=
  match (scanToken cs).kind with
  | .word name _ => some ⟨name.toList, false⟩
  | .string text _ => some ⟨text.toList, false⟩
  | _ => none

theorem readWord_quote (text : String) (rest : List Char) :
    readWord ((quote text).toList ++ rest) = some ⟨text.toList, false⟩ := by
  rw [readWord, scanToken_quote]

section

variable {α : Type} {p : α → Bool} {part rest : List α}

theorem takeWhile_append_of_stop (hp : ∀ a ∈ part, p a) (hr : ∀ a ∈ rest.head?, p a = false) :
    (part ++ rest).takeWhile p = part := by
  rw [takeWhile_append_of_pos hp]
  cases rest with
  | nil => simp
  | cons a rest => simp [hr a rfl]

/-- A part is taken exactly if all of it passes. -/
theorem takeWhile_append_eq_iff (hr : ∀ a ∈ rest.head?, p a = false) :
    (part ++ rest).takeWhile p = part ↔ ∀ a ∈ part, p a = true := by
  refine ⟨fun h a ha => ?_, fun h => takeWhile_append_of_stop h hr⟩
  rw [← h] at ha
  exact mem_takeWhile_imp ha

theorem length_takeWhile_lt {a : α} (ha : a ∈ part) (hp : p a = false) (rest : List α) :
    ((part ++ rest).takeWhile p).length < part.length := by
  induction part with
  | nil => cases ha
  | cons first part ih =>
    rw [cons_append, takeWhile_cons]
    cases hf : p first with
    | false => simp
    | true =>
      rcases mem_cons.mp ha with rfl | ha
      · cases hp.symm.trans hf
      · simpa using ih ha

end

/-! ### React -/

namespace React

/-- The characters that end text between tags. -/
def isText (c : Char) : Bool := c != '\x7b' && c != '<'

/-- Reads text between tags. -/
def readText (cs : List Char) : Option Literal :=
  match (scanJsxChild cs).kind with
  | .jsxText => some ⟨cleanJsxChars (cs.takeWhile isText), true⟩
  | .invalid => none
  | _ => some ⟨[], true⟩

/-- Reads the value of an attribute: a string in braces or a string by itself. -/
def readValue : List Char → Option Literal
  | '\x7b' :: cs =>
    match scanToken cs with
    | ⟨.string text _, _, '\x7d' :: _⟩ => some ⟨text.toList, false⟩
    | _ => none
  | cs =>
    match scanJsxString? cs with
    | some ⟨.string text _, _, _⟩ => some ⟨text.toList, true⟩
    | _ => none

/-- A name that variables may have. -/
def IsVariable (name : List Char) : Prop :=
  (∃ first ∈ name.head?, isIdentifierStart first = true) ∧ (∀ c ∈ name, isIdentifierPart c = true) ∧
    (keywordOf? name).any (fun keyword => keyword.isReserved || keyword.isStrictReserved) = false

/-- Reads a variable. -/
def readSlot (cs : List Char) : Option Literal :=
  match scanName? cs with
  | some (name, false, _, _) =>
    if (keywordOf? name).any fun keyword => keyword.isReserved || keyword.isStrictReserved then none
    else some ⟨name, false⟩
  | _ => none

variable {value rest : List Char}

/-- Text ends where nothing or markup stands behind it. -/
theorem isText_of_opens (h : rest = [] ∨ frame.Opens rest) : ∀ d ∈ rest.head?, isText d = false := by
  rcases h with rfl | ⟨sign, hs, more, rfl⟩
  · rintro d ⟨⟩
  · rcases mem_pair.mp hs with rfl | rfl <;> rintro d ⟨⟩ <;> rfl

theorem scanJsxChild_of_not_isText (h : ∀ d ∈ rest.head?, isText d = false) :
    (scanJsxChild rest).kind ≠ .jsxText ∧ (scanJsxChild rest).kind ≠ .invalid := by
  cases rest with
  | nil => exact ⟨by rintro ⟨⟩, by rintro ⟨⟩⟩
  | cons sign more =>
    have hs : sign = '\x7b' ∨ sign = '<' := by
      have := h sign rfl
      rwa [isText, Bool.and_eq_false_iff, bne_eq_false_iff_eq, bne_eq_false_iff_eq] at this
    rcases hs with rfl | rfl <;> exact ⟨by rintro ⟨⟩, by rintro ⟨⟩⟩

/-- The token between tags, at a text that is not empty. -/
theorem scanJsxChild_kind {c : Char} {cs : List Char} (hc : isText c) : (scanJsxChild (c :: cs)).kind =
    if ((c :: cs).takeWhile isText).any (fun d => d == '>' || d == '\x7d') then .invalid else .jsxText := by
  have hn : c ≠ '\x7b' ∧ c ≠ '<' := by simpa [isText] using hc
  unfold scanJsxChild
  split
  · next h => cases h
  · next h => exact absurd (List.cons.inj h).1 hn.1
  · next h => exact absurd (List.cons.inj h).1 hn.2
  · extract_lets text
    change (if text.any _ then Scanned.invalid (c :: cs) else ⟨.jsxText, _, _⟩).kind = if text.any _ then _ else _
    split <;> rfl

/-- **Text between tags is read as it is** if it has no brackets and nothing of it is layout. -/
theorem readText_iff (hr : rest = [] ∨ frame.Opens rest) : readText (value ++ rest) = some ⟨value, true⟩ ↔
    (∀ c ∈ value, isBracket c = false) ∧ cleanJsxChars value = value := by
  have hst := isText_of_opens hr
  by_cases ht : ∀ c ∈ value, isText c = true
  · have hta : (value ++ rest).takeWhile isText = value := takeWhile_append_of_stop ht hst
    have hb : (∀ c ∈ value, isBracket c = false) ↔ value.any (fun d => d == '>' || d == '\x7d') = false := by
      rw [any_eq_false]
      refine forall₂_congr fun c hc => ?_
      have := ht c hc
      simp only [isText, Bool.and_eq_true, bne_iff_ne] at this
      simp [isBracket, this]
    cases value with
    | nil =>
      obtain ⟨hj, hi⟩ := scanJsxChild_of_not_isText hst
      refine iff_of_true ?_ ⟨fun c hc => (by cases hc), rfl⟩
      rw [readText, nil_append]
      split
      · next hk => exact absurd hk hj
      · next hk => exact absurd hk hi
      · rfl
    | cons c value =>
      rw [readText, cons_append, scanJsxChild_kind (ht c (.head _)), ← cons_append, hta, hb]
      cases (c :: value).any fun d => d == '>' || d == '\x7d' with
      | true => simp
      | false => simp
  · have hs : ((value ++ rest).takeWhile isText).length < value.length := by
      simp only [not_forall, Bool.not_eq_true] at ht
      obtain ⟨c, hc, hp⟩ := ht
      exact length_takeWhile_lt hc hp _
    refine iff_of_false ?_ ?_
    · unfold readText
      split
      · intro h
        have hl := length_cleanJsxChars_le ((value ++ rest).takeWhile isText)
        have heq : cleanJsxChars ((value ++ rest).takeWhile isText) = value :=
          congrArg Literal.chars (Option.some.inj h)
        rw [heq] at hl
        omega
      · rintro ⟨⟩
      · intro h
        have heq : [] = value := congrArg Literal.chars (Option.some.inj h)
        rw [← heq] at hs
        exact Nat.not_lt_zero _ hs
    · rintro ⟨hpl, -⟩
      refine ht fun c hc => ?_
      have := hpl c hc
      simp only [isBracket, Bool.or_eq_false_iff] at this
      simp [isText, bne, this]

theorem readValue_quote (text : String) (rest : List Char) :
    readValue ('\x7b' :: ((quote text).toList ++ '\x7d' :: rest)) = some ⟨text.toList, false⟩ := by
  rw [readValue, scanToken_quote]
  rfl

theorem readValue_plain (h : '"' ∉ value) (rest : List Char) :
    readValue ('"' :: (value ++ '"' :: rest)) = some ⟨value, true⟩ := by
  have ht : (value ++ '"' :: rest).takeWhile (· != '"') = value :=
    takeWhile_append_of_stop (fun c hc => bne_iff_ne.mpr fun heq => h (heq ▸ hc)) (by rintro d ⟨⟩; rfl)
  simp [readValue, scanJsxString?, ht]

/-- **A slot is read as the variable it is** if there may be such a variable. -/
theorem readSlot_iff (hr : ∃ sign more, rest = sign :: more ∧ isIdentifierPart sign = false ∧ sign ≠ '\\') :
    readSlot (value ++ rest) = some ⟨value, false⟩ ↔ IsVariable value := by
  obtain ⟨sign, more, rfl, hs, he⟩ := hr
  have hso : ∀ d ∈ (sign :: more).head?, isIdentifierPart d = false := by
    rintro d ⟨⟩
    exact hs
  constructor
  · intro h
    unfold readSlot at h
    split at h
    · next name size behind hn =>
      split at h
      · cases h
      · next hk =>
        obtain rfl : name = value := congrArg Literal.chars (Option.some.inj h)
        unfold scanName? at hn
        dsimp only at hn
        split at hn
        · obtain ⟨_, -, heq⟩ := Option.map_eq_some_iff.mp hn
          cases heq
        · split at hn
          · next c _ hw =>
            split at hn
            · next hst =>
              have heq := (Prod.mk.inj (Option.some.inj hn)).1
              refine ⟨⟨c, by rw [← heq, hw]; rfl, hst⟩, fun d hd => ?_, by simpa using hk⟩
              rw [← heq] at hd
              exact mem_takeWhile_imp hd
            · cases hn
          · cases hn
    · cases h
  · rintro ⟨⟨first, hf, hst⟩, hp, hk⟩
    have ht : (value ++ sign :: more).takeWhile isIdentifierPart = value := takeWhile_append_of_stop hp hso
    have hdr : (value ++ sign :: more).dropWhile isIdentifierPart = sign :: more := by
      rw [dropWhile_append_of_pos hp, dropWhile_cons, hs]
      simp
    have hn : scanName? (value ++ sign :: more) = some (value, false, byteLength value, sign :: more) := by
      unfold scanName?
      rw [ht, hdr]
      dsimp only
      split
      · next heq => exact absurd (List.cons.inj heq).1 he
      · cases value with
        | nil => cases hf
        | cons c value =>
          cases hf
          simp [hst]
    rw [readSlot, hn]
    simp [hk]

end React

/-! ### Svelte -/

namespace Svelte

/-- Reads text between tags. -/
def readText (cs : List Char) : Option Literal := some ⟨cs.takeWhile fun c => c != '<' && c != '\x7b', true⟩

/-- Reads a value in quotes that holds no code. -/
def readValue : List Char → Option Literal
  | '"' :: cs =>
    let inside := cs.takeWhile fun c => c != '"' && c != '\x7b'
    if (cs.drop inside.length).head? = some '"' then some ⟨inside, true⟩ else none
  | _ => none

variable {value rest : List Char}

/-- **Text between tags is read as it is** if it has neither tags nor code. -/
theorem readText_iff (hr : rest = [] ∨ frame.Opens rest) :
    readText (value ++ rest) = some ⟨value, true⟩ ↔ '<' ∉ value ∧ '\x7b' ∉ value := by
  have hst : ∀ d ∈ rest.head?, (d != '<' && d != '\x7b') = false := by
    rcases hr with rfl | ⟨sign, hs, more, rfl⟩
    · rintro d ⟨⟩
    · rcases mem_pair.mp hs with rfl | rfl <;> rintro d ⟨⟩ <;> rfl
  rw [readText, Option.some_inj, Literal.mk.injEq, takeWhile_append_eq_iff hst]
  simp only [and_true, Bool.and_eq_true, bne_iff_ne, ne_eq]
  constructor
  · exact fun h => ⟨fun hm => (h _ hm).1 rfl, fun hm => (h _ hm).2 rfl⟩
  · rintro ⟨hl, hb⟩ c hc
    exact ⟨fun heq => hl (heq ▸ hc), fun heq => hb (heq ▸ hc)⟩

/-- **A value in quotes is read as it is** if it has neither quotes nor code. -/
theorem readValue_iff (rest : List Char) :
    readValue ('"' :: (value ++ '"' :: rest)) = some ⟨value, true⟩ ↔ '"' ∉ value ∧ '\x7b' ∉ value := by
  have hs : ∀ d ∈ ('"' :: rest).head?, (d != '"' && d != '\x7b') = false := by
    rintro d ⟨⟩
    rfl
  have ha : (∀ c ∈ value, (c != '"' && c != '\x7b') = true) ↔ '"' ∉ value ∧ '\x7b' ∉ value := by
    simp only [Bool.and_eq_true, bne_iff_ne, ne_eq]
    constructor
    · exact fun h => ⟨fun hm => (h _ hm).1 rfl, fun hm => (h _ hm).2 rfl⟩
    · rintro ⟨hq, hb⟩ c hc
      exact ⟨fun heq => hq (heq ▸ hc), fun heq => hb (heq ▸ hc)⟩
  rw [← ha, ← takeWhile_append_eq_iff hs]
  simp only [readValue]
  constructor
  · intro h
    split at h
    · exact congrArg Literal.chars (Option.some.inj h)
    · cases h
  · intro h
    simp [h]

/-- The characters of a value with references in place of quotes and braces. -/
def withReferences (value : List Char) : List Char :=
  ((value.flatMap (inPlaceOf '"' "&quot;".toList)).flatMap (inPlaceOf '\x7b' "&#123;".toList)).flatMap
    (inPlaceOf '\x7d' "&#125;".toList)

theorem toList_quoteStatic (text : String) :
    (quoteStatic text).toList = '"' :: (withReferences text.toList ++ ['"']) := by
  simp only [quoteStatic, replaceAll, String.toList_append, String.toList_ofList]
  rw [show "\"".toList = ['"'] from rfl, show "\x7b".toList = ['\x7b'] from rfl, show "\x7d".toList = ['\x7d'] from rfl,
    replaceFrom_singleton, replaceFrom_singleton, replaceFrom_singleton]
  rfl

theorem readValue_withReferences (value rest : List Char) :
    readValue ('"' :: (withReferences value ++ '"' :: rest)) = some ⟨withReferences value, true⟩ := by
  rw [readValue_iff, withReferences]
  constructor
  · refine not_mem_flatMap_inPlaceOf (by decide) fun hm => absurd hm ?_
    refine not_mem_flatMap_inPlaceOf (by decide) fun hm => absurd hm ?_
    exact not_mem_flatMap_inPlaceOf (by decide) fun _ => rfl
  · refine not_mem_flatMap_inPlaceOf (by decide) fun hm => absurd hm ?_
    exact not_mem_flatMap_inPlaceOf (by decide) fun _ => rfl

theorem decode_withReferences (e : Entities) (value : List Char) :
    e.decode (withReferences value) = e.decode value := by
  rw [withReferences]
  refine (decode_flatMap (by decide) (by decide) (all_eq_true.mp (by decide)) e.closeBrace _).trans ?_
  refine (decode_flatMap (by decide) (by decide) (all_eq_true.mp (by decide)) e.openBrace _).trans ?_
  exact decode_flatMap (by decide) (by decide) (all_eq_true.mp (by decide)) e.quote _

end Svelte

/-! ### Lit -/

namespace Lit

/-- Reads text between tags, in a template literal. -/
def readText (cs : List Char) : Option Literal :=
  match cooked? (literalPart '<' false cs) with
  | some text => if '<' ∈ text then none else some ⟨text, true⟩
  | none => none

/-- Reads a value in quotes without substitutions, in a template literal. -/
def readValue : List Char → Option Literal
  | '"' :: cs =>
    let raw := literalPart '"' false cs
    if (cs.drop raw.length).head? = some '"' ∧ '"' ∉ raw then
      match cooked? raw with
      | some text => if '"' ∈ text then none else some ⟨text, true⟩
      | none => none
    else none
  | _ => none

variable {value rest : List Char}

theorem ends_of_opens (h : rest = [] ∨ frame.Opens rest) : Ends '<' rest := by
  rcases h with rfl | ⟨sign, hs, more, rfl⟩
  · exact ⟨rfl, by simp⟩
  · simp only [frame, mem_cons, not_mem_nil, or_false] at hs
    rcases hs with rfl | rfl | rfl <;> exact ⟨by simp [literalPart], by simp⟩

theorem ends_quote (rest : List Char) : Ends '"' ('"' :: rest) := ⟨by simp [literalPart], by simp⟩

/-- **Text between tags is read as it is** if it has neither tags nor carriage returns. -/
theorem readText_iff (hr : rest = [] ∨ frame.Opens rest) :
    readText (escapeTemplateChars value ++ rest) = some ⟨value, true⟩ ↔ '<' ∉ value ∧ '\r' ∉ value := by
  constructor
  · intro h
    have hl : '<' ∉ value := by
      unfold readText at h
      split at h
      · split at h
        · cases h
        · next hl =>
          cases h
          exact hl
      · cases h
    refine ⟨hl, ?_⟩
    rw [readText, literalPart_escapeTemplateChars (ends_of_opens hr) (by decide) hl, cooked?_escapeTemplateChars] at h
    rw [← foldBreaks_eq_self]
    dsimp only at h
    split at h
    · cases h
    · exact congrArg Literal.chars (Option.some.inj h)
  · rintro ⟨hl, hre⟩
    rw [readText, literalPart_escapeTemplateChars (ends_of_opens hr) (by decide) hl, cooked?_escapeTemplateChars,
      foldBreaks_eq_self.mpr hre]
    simp [hl]

/-- **A value in quotes is read as it is** if it ends neither itself nor the literal, and has neither escapes nor
carriage returns. -/
theorem readValue_iff (rest : List Char) : readValue ('"' :: (value ++ '"' :: rest)) = some ⟨value, true⟩ ↔
    Unended '"' value ∧ '\\' ∉ value ∧ '\r' ∉ value := by
  constructor
  · intro h
    simp only [readValue] at h
    split at h
    · next hr =>
      obtain ⟨-, hq⟩ := hr
      split at h
      · next text ht =>
        split at h
        · cases h
        · obtain rfl : text = value := congrArg Literal.chars (Option.some.inj h)
          -- the raw text is at least as long as the value, and does not reach beyond it
          obtain ⟨behind, hb⟩ := literalPart_isPrefix '"' false (text ++ '"' :: rest)
          have hl := (length_of_cooked? ht).1
          obtain ⟨more, hm⟩ := prefix_of_prefix_length_le (prefix_append text ('"' :: rest))
            ⟨behind, hb⟩ hl
          have hn : more = [] := by
            rw [← hm, append_assoc] at hb
            cases more with
            | nil => rfl
            | cons c more =>
              have hc : c = '"' := (List.cons.inj (append_cancel_left hb)).1
              exact absurd (hm ▸ mem_append_right text (hc ▸ .head _)) hq
          rw [hn, append_nil] at hm
          rw [← hm] at ht
          obtain ⟨he, hre⟩ := cooked?_eq_self_iff.mp ht
          exact ⟨(literalPart_eq_self_iff (ends_quote rest) he).mp hm.symm, he, hre⟩
      · cases h
    · cases h
  · rintro ⟨hu, he, hre⟩
    have hr := (literalPart_eq_self_iff (ends_quote rest) he).mpr hu
    simp [readValue, hr, cooked?_eq_self_iff.mpr ⟨he, hre⟩, hu.stop]

/-- The characters of a value with references in place of quotes. -/
def withReferences (value : List Char) : List Char := value.flatMap (inPlaceOf '"' "&quot;".toList)

theorem withReferences_cons {c : Char} (h : c ≠ '"') (value : List Char) :
    withReferences (c :: value) = c :: withReferences value := by
  rw [withReferences, flatMap_cons, inPlaceOf, if_neg h]
  rfl

theorem quote_not_mem_withReferences (value : List Char) : '"' ∉ withReferences value :=
  not_mem_flatMap_inPlaceOf (by decide) fun _ => rfl

theorem isEscaped_withReferences (c : Char) (value : List Char) :
    isEscaped c (withReferences value) = isEscaped c value := by
  have hh : (withReferences value).head? = some '{' ↔ value.head? = some '{' := by
    cases value with
    | nil => rfl
    | cons d value =>
      by_cases hd : d = '"'
      · rw [hd, withReferences, flatMap_cons, inPlaceOf, if_pos rfl]
        exact iff_of_false (by simp) (by simp)
      · rw [withReferences_cons hd]
        simp
  rw [isEscaped, isEscaped, Bool.eq_iff_iff]
  simp only [Bool.or_eq_true, Bool.and_eq_true, beq_iff_eq, hh]

/-- Quotes are replaced in an escaped text as they are in the text. -/
theorem withReferences_escapeTemplateChars (value : List Char) :
    withReferences (escapeTemplateChars value) = escapeTemplateChars (withReferences value) := by
  induction value with
  | nil => rfl
  | cons c value ih =>
    by_cases hc : c = '"'
    · subst hc
      rw [escapeTemplateChars_cons, isEscaped]
      change "&quot;".toList ++ withReferences (escapeTemplateChars value) = escapeTemplateChars
        ("&quot;".toList ++ withReferences value)
      rw [ih]
      rfl
    · rw [withReferences_cons hc, escapeTemplateChars_cons, escapeTemplateChars_cons, isEscaped_withReferences]
      split
      · rw [withReferences_cons (by decide), withReferences_cons hc, ih]
      · rw [withReferences_cons hc, ih]

theorem readValue_escaped (value rest : List Char) :
    readValue ('"' :: (withReferences (escapeTemplateChars value) ++ '"' :: rest)) =
      some ⟨foldBreaks (withReferences value), true⟩ := by
  have he := quote_not_mem_withReferences (escapeTemplateChars value)
  have hr := literalPart_escapeTemplateChars (ends_quote rest) (by decide) (quote_not_mem_withReferences value)
  have hf : '"' ∉ foldBreaks (withReferences value) := by
    rw [mem_foldBreaks (by decide) (by decide)]
    exact quote_not_mem_withReferences value
  rw [withReferences_escapeTemplateChars] at he ⊢
  simp [readValue, hr, he, cooked?_escapeTemplateChars, hf]

/-- A value with references in place of quotes stands for the same text, unless it has carriage returns. -/
theorem decode_foldBreaks_withReferences (e : Entities) (value : List Char) :
    e.decode (foldBreaks (withReferences value)) = e.decode value ↔ '\r' ∉ value := by
  have hd : e.decode (withReferences value) = e.decode value :=
    decode_flatMap (by decide) (by decide) (all_eq_true.mp (by decide)) e.quote _
  rw [← hd, decode_foldBreaks]
  refine not_congr ⟨fun hm => ?_, fun hm => ?_⟩
  · obtain ⟨c, hc, hm⟩ := mem_flatMap.mp hm
    rw [inPlaceOf] at hm
    split at hm
    · exact absurd hm (by decide)
    · rwa [mem_singleton.mp hm]
  · exact mem_flatMap.mpr ⟨_, hm, by simp [inPlaceOf]⟩

end Lit

end Polyview
