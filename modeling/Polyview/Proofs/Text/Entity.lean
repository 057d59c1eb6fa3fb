import Mathlib.Data.List.TakeWhile
import Polyview.Text.Charset
import Polyview.Text.Replace

/-! # Character references

Static text in markup may hold references `&name;` to characters. Which names there are is left open, apart from the
three that are written in place of a quote and of braces (`Entities`). Writing a reference in place of a character does
not change what a text stands for (`decode_flatMap`), but turning line breaks into line feeds does
(`decode_foldBreaks`). -/

namespace Polyview.Text

open List

/-- The characters of the names of references. -/
def isEntityPart (c : Char) : Bool := isAsciiAlphanumeric c || c == '#'

/-- The texts that references stand for, by name. -/
structure Entities where
  text? : List Char → Option (List Char)
  quote : text? "quot".toList = some ['"']
  openBrace : text? "#123".toList = some ['\x7b']
  closeBrace : text? "#125".toList = some ['\x7d']

namespace Entities

variable (e : Entities)

/-- The text of the reference whose `&` precedes, and the length of its name with the semicolon. -/
def reference? (cs : List Char) : Option (List Char × ℕ) :=
  if (cs.dropWhile isEntityPart).head? = some ';' then
    (e.text? (cs.takeWhile isEntityPart)).map fun text => (text, (cs.takeWhile isEntityPart).length + 1)
  else none

/-- What a text behind the next `skip` characters stands for. -/
def decodeFrom : ℕ → List Char → List Char
  | _, [] => []
  | skip + 1, _ :: cs => decodeFrom skip cs
  | 0, c :: cs =>
    if c = '&' then
      match e.reference? cs with
      | some (text, size) => text ++ decodeFrom size cs
      | none => c :: decodeFrom 0 cs
    else c :: decodeFrom 0 cs

/-- What a text with references stands for. -/
def decode (cs : List Char) : List Char := e.decodeFrom 0 cs

variable {e} {c : Char} {cs name rest text : List Char}

theorem decodeFrom_eq (n : ℕ) (cs : List Char) : e.decodeFrom n cs = e.decode (cs.drop n) := by
  induction n generalizing cs with
  | zero => rfl
  | succ n ih =>
    cases cs with
    | nil => rfl
    | cons c cs => exact ih cs

/-- A character that starts no reference stands for itself. -/
theorem decode_cons (h : c = '&' → e.reference? cs = none) : e.decode (c :: cs) = c :: e.decode cs := by
  by_cases hc : c = '&'
  · simp [decode, decodeFrom, hc, h hc]
  · simp [decode, decodeFrom, hc]

theorem isEntityPart_semicolon : isEntityPart ';' = false := by decide

theorem takeWhile_name (hn : ∀ c ∈ name, isEntityPart c) :
    (name ++ ';' :: rest).takeWhile isEntityPart = name := by
  rw [takeWhile_append_of_pos hn, takeWhile_cons, isEntityPart_semicolon]
  simp

theorem dropWhile_name (hn : ∀ c ∈ name, isEntityPart c) :
    (name ++ ';' :: rest).dropWhile isEntityPart = ';' :: rest := by
  rw [dropWhile_append_of_pos hn, dropWhile_cons, isEntityPart_semicolon]
  simp

theorem reference?_eq_some {size : ℕ} : e.reference? cs = some (text, size) ↔ ∃ name rest,
    cs = name ++ ';' :: rest ∧ (∀ c ∈ name, isEntityPart c) ∧ e.text? name = some text ∧
      size = name.length + 1 := by
  constructor
  · intro h
    rw [reference?] at h
    split at h
    · next he =>
      obtain ⟨found, hf, heq⟩ := Option.map_eq_some_iff.mp h
      cases heq
      obtain ⟨rest, hr⟩ := head?_eq_some_iff.mp he
      refine ⟨cs.takeWhile isEntityPart, rest, ?_, fun c hc => mem_takeWhile_imp hc, hf, rfl⟩
      rw [← hr, takeWhile_append_dropWhile]
    · cases h
  · rintro ⟨name, rest, rfl, hn, ht, rfl⟩
    rw [reference?, takeWhile_name hn, dropWhile_name hn, ht]
    rfl

theorem decode_reference (hn : ∀ c ∈ name, isEntityPart c) (ht : e.text? name = some text) :
    e.decode ('&' :: (name ++ ';' :: rest)) = text ++ e.decode rest := by
  have href : e.reference? (name ++ ';' :: rest) = some (text, name.length + 1) :=
    reference?_eq_some.mpr ⟨name, rest, rfl, hn, ht, rfl⟩
  rw [decode, decodeFrom, if_pos rfl, href]
  change text ++ e.decodeFrom (name.length + 1) (name ++ ';' :: rest) = _
  rw [decodeFrom_eq, drop_length_add_append]
  rfl

/-- Texts are read reference by reference and character by character. -/
theorem references_induction {p : List Char → Prop} (nil : p [])
    (reference : ∀ name rest text, (∀ c ∈ name, isEntityPart c) → e.text? name = some text → p rest →
      p ('&' :: (name ++ ';' :: rest)))
    (char : ∀ c cs, (c = '&' → e.reference? cs = none) → p cs → p (c :: cs)) (cs : List Char) : p cs := by
  induction hl : cs.length using Nat.strongRecOn generalizing cs with
  | ind length ih =>
  cases cs with
  | nil => exact nil
  | cons c cs =>
    rw [length_cons] at hl
    by_cases hc : c = '&' ∧ e.reference? cs ≠ none
    · obtain ⟨rfl, hs⟩ := hc
      obtain ⟨⟨text, size⟩, href⟩ := Option.ne_none_iff_exists'.mp hs
      obtain ⟨name, rest, rfl, hn, ht, -⟩ := reference?_eq_some.mp href
      rw [length_append, length_cons] at hl
      exact reference name rest text hn ht (ih rest.length (by omega) rest rfl)
    · refine char c cs (fun heq => ?_) (ih cs.length (by omega) cs rfl)
      by_contra hs
      exact hc ⟨heq, hs⟩

/-! ### Texts with the same references -/

/-- Two texts go on alike as far as a reference reaches. -/
def Alike (cs ds : List Char) : Prop :=
  cs.takeWhile isEntityPart = ds.takeWhile isEntityPart ∧
    ((cs.dropWhile isEntityPart).head? = some ';' ↔ (ds.dropWhile isEntityPart).head? = some ';')

theorem reference?_congr {ds : List Char} (h : Alike cs ds) : e.reference? cs = e.reference? ds := by
  simp only [reference?, h.1, h.2]

theorem alike_of_stop {d : Char} {ds : List Char} (hc : isEntityPart c = false ∧ c ≠ ';')
    (hd : isEntityPart d = false ∧ d ≠ ';') : Alike (c :: cs) (d :: ds) := by
  simp [Alike, hc.1, hd.1, hc.2, hd.2]

theorem Alike.cons {ds : List Char} (h : Alike cs ds) (c : Char) : Alike (c :: cs) (c :: ds) := by
  cases hc : isEntityPart c with
  | true => simpa [Alike, hc] using h
  | false => simp [Alike, hc]

end Entities

/-! ### Characters as references -/

/-- Writes a text in place of a character. -/
def inPlaceOf (sign : Char) (text : List Char) (c : Char) : List Char := if c = sign then text else [c]

theorem replaceFrom_singleton (sign : Char) (text cs : List Char) :
    replaceFrom [sign] text 0 cs = cs.flatMap (inPlaceOf sign text) := by
  induction cs with
  | nil => rfl
  | cons c cs ih =>
    rw [replaceFrom, flatMap_cons, inPlaceOf]
    by_cases hc : c = sign
    · simp [hc, ih]
    · have hn : sign ≠ c := fun heq => hc heq.symm
      simp [hc, hn, ih]

theorem not_mem_flatMap_inPlaceOf {sign c : Char} {text cs : List Char} (ht : c ∉ text) (hc : c ∈ cs → c = sign) :
    c ∉ cs.flatMap (inPlaceOf sign text) := by
  intro hm
  obtain ⟨d, hd, hm⟩ := mem_flatMap.mp hm
  rw [inPlaceOf] at hm
  split at hm
  · exact ht hm
  · next hn =>
    obtain rfl := mem_singleton.mp hm
    exact hn (hc hd)

section

variable {e : Entities} {sign : Char} {name : List Char}

theorem alike_flatMap (hs : isEntityPart sign = false ∧ sign ≠ ';') (cs : List Char) :
    Entities.Alike (cs.flatMap (inPlaceOf sign ('&' :: name))) cs := by
  induction cs with
  | nil => exact ⟨rfl, Iff.rfl⟩
  | cons c cs ih =>
    rw [flatMap_cons, inPlaceOf]
    split
    · next hc =>
      rw [hc]
      exact Entities.alike_of_stop (by decide) hs
    · exact ih.cons c

theorem flatMap_inPlaceOf_of_not_mem {text cs : List Char} (h : sign ∉ cs) : cs.flatMap (inPlaceOf sign text) = cs := by
  induction cs with
  | nil => rfl
  | cons c cs ih =>
    rw [mem_cons, not_or] at h
    rw [flatMap_cons, ih h.2, inPlaceOf, if_neg fun heq => h.1 heq.symm]
    rfl

/-- **Writing a reference to a character in its place** does not change what a text stands for. -/
theorem decode_flatMap (hs : isEntityPart sign = false ∧ sign ≠ ';') (hne : sign ≠ '&')
    (hn : ∀ c ∈ name, isEntityPart c) (ht : e.text? name = some [sign]) (cs : List Char) :
    e.decode (cs.flatMap (inPlaceOf sign ('&' :: (name ++ [';'])))) = e.decode cs := by
  induction cs using e.references_induction with
  | nil => rfl
  | reference other rest text ho hf ih =>
    have hk : sign ∉ '&' :: (other ++ [';']) := by
      intro hm
      rcases mem_cons.mp hm with heq | hm
      · exact hne heq
      rcases mem_append.mp hm with hm | hm
      · cases hs.1.symm.trans (ho sign hm)
      · exact hs.2 (mem_singleton.mp hm)
    rw [show '&' :: (other ++ ';' :: rest) = '&' :: (other ++ [';']) ++ rest by simp, flatMap_append,
      flatMap_inPlaceOf_of_not_mem hk]
    simp only [cons_append, append_assoc, nil_append]
    rw [Entities.decode_reference ho hf, Entities.decode_reference ho hf, ih]
  | char c cs hc ih =>
    rw [flatMap_cons, Entities.decode_cons hc, inPlaceOf]
    split
    · next heq =>
      simp only [cons_append, append_assoc, nil_append]
      rw [Entities.decode_reference hn ht, ih, heq]
      rfl
    · rw [singleton_append, Entities.decode_cons, ih]
      intro heq
      rw [Entities.reference?_congr (alike_flatMap hs cs)]
      exact hc heq

end

/-! ### Line breaks -/

/-- Turns every line break into a line feed; `behind` tells that a carriage return precedes. -/
def foldBreaksFrom : (behind : Bool) → List Char → List Char
  | _, [] => []
  | behind, c :: cs =>
    if c = '\r' then '\n' :: foldBreaksFrom true cs
    else if behind && c = '\n' then foldBreaksFrom false cs
    else c :: foldBreaksFrom false cs

/-- Turns every line break into a line feed. -/
def foldBreaks (cs : List Char) : List Char := foldBreaksFrom false cs

theorem foldBreaks_cons {c : Char} (h : c ≠ '\r') (cs : List Char) : foldBreaks (c :: cs) = c :: foldBreaks cs := by
  simp [foldBreaks, foldBreaksFrom, h]

theorem foldBreaks_append {part : List Char} (h : '\r' ∉ part) (cs : List Char) :
    foldBreaks (part ++ cs) = part ++ foldBreaks cs := by
  induction part with
  | nil => rfl
  | cons c part ih =>
    rw [mem_cons, not_or] at h
    rw [cons_append, foldBreaks_cons (fun heq => h.1 heq.symm), ih h.2, cons_append]

theorem return_not_mem_foldBreaksFrom (behind : Bool) (cs : List Char) : '\r' ∉ foldBreaksFrom behind cs := by
  induction cs generalizing behind with
  | nil => simp [foldBreaksFrom]
  | cons c cs ih =>
    rw [foldBreaksFrom]
    split
    · simp [ih]
    · next hc =>
      split
      · exact ih false
      · simp [ih, Ne.symm hc]

theorem foldBreaks_eq_self {cs : List Char} : foldBreaks cs = cs ↔ '\r' ∉ cs := by
  constructor
  · intro h
    rw [← h]
    exact return_not_mem_foldBreaksFrom false cs
  · intro h
    simpa [foldBreaks, foldBreaksFrom] using foldBreaks_append h []

theorem length_foldBreaks_le (cs : List Char) : (foldBreaks cs).length ≤ cs.length := by
  rw [foldBreaks]
  generalize false = behind
  induction cs generalizing behind with
  | nil => exact Nat.le_refl _
  | cons c cs ih =>
    have ht := ih true
    have hf := ih false
    rw [foldBreaksFrom]
    split
    · simp only [length_cons]
      omega
    · split
      · simp only [length_cons]
        omega
      · simp only [length_cons]
        omega

theorem alike_foldBreaks (cs : List Char) : Entities.Alike (foldBreaks cs) cs := by
  induction cs with
  | nil => exact ⟨rfl, Iff.rfl⟩
  | cons c cs ih =>
    by_cases hc : c = '\r'
    · rw [hc, foldBreaks, foldBreaksFrom, if_pos rfl]
      exact Entities.alike_of_stop (by decide) (by decide)
    · rw [foldBreaks_cons hc]
      exact ih.cons c

/-- **Line breaks are part of what a text stands for.** -/
theorem decode_foldBreaks (e : Entities) (cs : List Char) : e.decode (foldBreaks cs) = e.decode cs ↔ '\r' ∉ cs := by
  induction cs using e.references_induction with
  | nil => simp [foldBreaks, foldBreaksFrom]
  | reference name rest text hn ht ih =>
    have hr : '\r' ∉ '&' :: (name ++ [';']) := by
      intro hm
      rcases mem_cons.mp hm with heq | hm
      · revert heq
        decide
      rcases mem_append.mp hm with hm | hm
      · exact absurd (hn _ hm) (by decide)
      · revert hm
        decide
    rw [show '&' :: (name ++ ';' :: rest) = '&' :: (name ++ [';']) ++ rest by simp, foldBreaks_append hr,
      mem_append, not_or, and_iff_right hr]
    simp only [cons_append, append_assoc, nil_append]
    rw [Entities.decode_reference hn ht, Entities.decode_reference hn ht, append_cancel_left_eq, ih]
  | char c cs hc ih =>
    by_cases hr : c = '\r'
    · rw [Entities.decode_cons hc, hr, foldBreaks, foldBreaksFrom, if_pos rfl,
        Entities.decode_cons fun heq => absurd heq (by decide)]
      simp
    · have hf : c = '&' → e.reference? (foldBreaks cs) = none := by
        intro heq
        rw [Entities.reference?_congr (alike_foldBreaks cs)]
        exact hc heq
      rw [foldBreaks_cons hr, Entities.decode_cons hf, Entities.decode_cons hc, cons_inj_right, ih,
        mem_cons, not_or, and_iff_right fun heq => hr heq.symm]

end Polyview.Text
