import Mathlib.Data.List.TakeWhile
import Polyview.Proofs.Source.Offset
import Polyview.Script.Expression

/-! # What scanners read

Every scanner reads a token from the front of a text. `Scanned.Fits` says that it has counted the bytes of
the token right, that the token is not empty unless the text is at its end, that a sign is spelled as
the tables say, and that text between tags holds no braces and angle brackets. Invalid tokens take up nothing. -/

namespace Polyview.Script

open List Text

variable {c : Char} {cs rest : List Char} {escaped : Bool} {size : ℕ}

/-- The signs with their spelling. -/
def spellings : List (List Char × Punct) := punctTable ++ greaterTable

/-- The characters that text between tags does not hold. -/
def isBracket (c : Char) : Bool := c == '\x7b' || c == '<' || c == '>' || c == '\x7d'

/-- A text starts with one without brackets, and goes on with `rest`. -/
def Unmarked (text rest : List Char) : Prop := ∃ part, text = part ++ rest ∧ ∀ c ∈ part, isBracket c = false

/-- A token that was scanned at the start of a text. -/
structure Scanned.Fits (text : List Char) (scanned : Scanned) : Prop where
  size : scanned.kind = .invalid ∧ scanned.size = 0 ∨
    scanned.kind ≠ .invalid ∧ Takes text scanned.size scanned.rest ∧ (scanned.kind = .eof ∨ 0 < scanned.size)
  sign : ∀ sign, scanned.kind = .punct sign → ∃ spelling, (spelling, sign) ∈ spellings ∧ text = spelling ++ scanned.rest
  plain : scanned.kind = .jsxText → Unmarked text scanned.rest

theorem Scanned.fits_invalid (text cs : List Char) : (Scanned.invalid cs).Fits text :=
  ⟨Or.inl ⟨rfl, rfl⟩, fun _ h => (by cases h), fun h => by cases h⟩

/-- A token that is neither a sign nor text between tags fits if its bytes are counted right and it is not empty. -/
theorem Scanned.fits_of_takes {text : List Char} {kind : TokenKind} (ht : Takes text size rest) (hp : 0 < size)
    (hk : kind ≠ .invalid ∧ (∀ sign, kind ≠ .punct sign) ∧ kind ≠ .jsxText) : (Scanned.mk kind size rest).Fits text :=
  ⟨Or.inr ⟨hk.1, ht, Or.inr hp⟩, fun sign h => absurd h (hk.2.1 sign), fun h => absurd h hk.2.2⟩

/-- A sign fits if it is spelled as the tables say. -/
theorem Scanned.fits_of_spelling {spelling : List Char} {sign : Punct} (hm : (spelling, sign) ∈ spellings)
    (hsi : size = byteLength spelling) (hp : 0 < size) :
    (Scanned.mk (.punct sign) size rest).Fits (spelling ++ rest) := by
  refine ⟨Or.inr ⟨by simp, hsi ▸ takes_append spelling rest, Or.inr hp⟩, fun s hs => ?_, fun h => by cases h⟩
  cases hs
  exact ⟨spelling, hm, rfl⟩

/-! ### Characters of one byte -/

theorem utf8Size_eq_one (h : c.toNat < 128) : c.utf8Size = 1 := by
  rw [Char.utf8Size_eq_one_iff]
  have : c.val.toNat < 128 := h
  exact UInt32.le_iff_toNat_le.mpr (by simpa using Nat.le_of_lt_succ this)

theorem utf8Size_of_le {d : Char} (h : c ≤ d) (hd : d.toNat < 128) : c.utf8Size = 1 := by
  have : c.toNat ≤ d.toNat := UInt32.le_iff_toNat_le.mp (Char.le_def.mp h)
  exact utf8Size_eq_one (by omega)

theorem utf8Size_of_isAsciiDigit (h : isAsciiDigit c) : c.utf8Size = 1 := by
  simp only [isAsciiDigit, Bool.and_eq_true, decide_eq_true_eq] at h
  exact utf8Size_of_le h.2 (by decide)

theorem utf8Size_of_hexValue? (h : (hexValue? c).isSome) : c.utf8Size = 1 := by
  unfold hexValue? at h
  split at h
  · next hd => exact utf8Size_of_isAsciiDigit hd
  · split at h
    · next hl =>
      simp only [Bool.and_eq_true, decide_eq_true_eq] at hl
      exact utf8Size_of_le hl.2 (by decide)
    · split at h
      · next hu =>
        simp only [Bool.and_eq_true, decide_eq_true_eq] at hu
        exact utf8Size_of_le hu.2 (by decide)
      · simp at h

theorem utf8Size_of_octalValue? (h : (octalValue? c).isSome) : c.utf8Size = 1 := by
  unfold octalValue? at h
  split at h
  · next hd =>
    simp only [Bool.and_eq_true, decide_eq_true_eq] at hd
    exact utf8Size_of_le hd.2 (by decide)
  · simp at h

/-- A text of characters of one byte each has as many bytes as characters. -/
theorem byteLength_eq_length (h : ∀ c ∈ cs, c.utf8Size = 1) : byteLength cs = cs.length := by
  induction cs with
  | nil => rfl
  | cons c cs ih =>
    rw [byteLength_cons, h c (by simp), ih fun d hd => h d (.tail _ hd), length_cons]
    omega

/-! ### Words -/

theorem utf8Size_of_hexNumber? {digits : List Char} {n code : ℕ}
    (h : digits.foldlM (fun n d => (hexValue? d).map fun v => 16 * n + v) n = some code) :
    ∀ d ∈ digits, d.utf8Size = 1 := by
  induction digits generalizing n with
  | nil => simp
  | cons d digits ih =>
    rw [foldlM_cons] at h
    obtain ⟨n', hn', h⟩ := Option.bind_eq_some_iff.mp h
    obtain ⟨v, hv, -⟩ := Option.map_eq_some_iff.mp hn'
    intro e he
    rcases mem_cons.mp he with rfl | he
    · exact utf8Size_of_hexValue? (by rw [hv]; rfl)
    · exact ih h e he

/-- A word that is read as a whole has at least one character. -/
theorem scanEscapedWord_takes {first : Bool} {mode : EscapeMode} {name : List Char}
    (h : scanEscapedWord first mode cs = some (name, size, rest)) : Takes cs size rest ∧ (first → 0 < size) := by
  fun_induction scanEscapedWord first mode cs generalizing name size rest
  case case3 hf => cases h; exact ⟨takes_zero [], fun h => absurd h hf⟩
  case case16 hf => cases h; exact ⟨takes_zero _, fun h => absurd h hf⟩
  case case4 c cs hc _ _ ih =>
    obtain ⟨⟨_, _, _⟩, hr, heq⟩ := Option.map_eq_some_iff.mp h
    cases heq
    rw [beq_iff_eq.mp hc]
    exact ⟨(ih hr).1.cons '\x7d', fun _ => by omega⟩
  case case6 c cs _ v hv _ ih =>
    obtain ⟨⟨_, _, _⟩, hr, heq⟩ := Option.map_eq_some_iff.mp h
    cases heq
    have ht := (ih hr).1.cons c
    rw [utf8Size_of_hexValue? (by rw [hv]; rfl)] at ht
    exact ⟨ht, fun _ => by omega⟩
  case case9 c hc text ih =>
    obtain ⟨⟨_, _, _⟩, hr, heq⟩ := Option.map_eq_some_iff.mp h
    cases heq
    rw [beq_iff_eq.mp hc]
    exact ⟨(((ih hr).1.cons '\x7b').cons 'u').cons '\\', fun _ => by omega⟩
  case case10 c hc d1 d2 d3 d4 text _ code hco _ _ ih =>
    obtain ⟨⟨_, _, _⟩, hr, heq⟩ := Option.map_eq_some_iff.mp h
    cases heq
    have ho := utf8Size_of_hexNumber? hco
    simp only [mem_cons, not_mem_nil, or_false, forall_eq_or_imp, forall_eq] at ho
    obtain ⟨h1, h2, h3, h4⟩ := ho
    rw [beq_iff_eq.mp hc]
    have ht := (((((ih hr).1.cons d4).cons d3).cons d2).cons d1).cons 'u' |>.cons '\\'
    rw [h1, h2, h3, h4] at ht
    exact ⟨ht, fun _ => by omega⟩
  case case14 c cs _ _ ih =>
    obtain ⟨⟨_, _, _⟩, hr, heq⟩ := Option.map_eq_some_iff.mp h
    cases heq
    have := c.utf8Size_pos
    exact ⟨(ih hr).1.cons c, fun _ => by omega⟩
  all_goals cases h

theorem takes_takeWhile (p : Char → Bool) (cs : List Char) : Takes cs (byteLength (cs.takeWhile p)) (cs.dropWhile p) :=
  ⟨cs.takeWhile p, (takeWhile_append_dropWhile ..).symm, rfl⟩

theorem drop_length_takeWhile (p : Char → Bool) (cs : List Char) :
    cs.drop (cs.takeWhile p).length = cs.dropWhile p := by
  induction cs with
  | nil => rfl
  | cons c cs ih =>
    rw [takeWhile_cons, dropWhile_cons]
    split
    · simpa using ih
    · rfl

theorem scanName?_takes {name : List Char} (h : scanName? cs = some (name, escaped, size, rest)) :
    Takes cs size rest ∧ 0 < size := by
  simp only [scanName?] at h
  split at h
  · obtain ⟨⟨_, _, _⟩, hw, heq⟩ := Option.map_eq_some_iff.mp h
    cases heq
    obtain ⟨ht, hp⟩ := scanEscapedWord_takes hw
    exact ⟨ht, hp rfl⟩
  · split at h
    · next c word hn =>
      split at h
      · cases h
        have := c.utf8Size_pos
        refine ⟨takes_takeWhile isIdentifierPart cs, ?_⟩
        rw [hn, byteLength_cons]
        omega
      · cases h
    · cases h

theorem fits_scanWord (cs : List Char) : (scanWord cs).Fits cs := by
  unfold scanWord
  split
  · next name escaped size rest hn =>
    obtain ⟨ht, hp⟩ := scanName?_takes hn
    refine Scanned.fits_of_takes ht hp ?_
    unfold wordKind
    split
    · split
      · split <;> simp
      · simp
    · simp
  · exact Scanned.fits_invalid _ _

theorem fits_scanPrivateName (cs : List Char) : (scanPrivateName cs).Fits ('#' :: cs) := by
  unfold scanPrivateName
  split
  · next name escaped size rest hn =>
    obtain ⟨ht, hp⟩ := scanName?_takes hn
    exact Scanned.fits_of_takes (ht.cons '#') (by omega) (by simp)
  · exact Scanned.fits_invalid _ _

theorem fits_scanJsxName (cs : List Char) : (scanJsxName cs).Fits cs := by
  unfold scanJsxName
  split
  · next name escaped size rest hn =>
    obtain ⟨ht, hp⟩ := scanName?_takes hn
    simp only [drop_length_takeWhile]
    split
    · exact Scanned.fits_of_takes (ht.trans (takes_takeWhile _ rest)) (by omega) (by simp)
    · exact Scanned.fits_of_takes ht hp (by simp)
  · exact Scanned.fits_invalid _ _

/-! ### Numbers -/

/-- Digits of one byte each are counted right. -/
theorem scanDigits?_takes {isDigit : Char → Bool} (hdg : ∀ c, isDigit c → c.utf8Size = 1)
    (h : scanDigits? isDigit cs = some (size, rest)) : Takes cs size rest ∧ 0 < size := by
  simp only [scanDigits?, drop_length_takeWhile] at h
  split at h
  · next hs =>
    cases h
    have ho : ∀ c ∈ cs.takeWhile (fun c => isDigit c || c == '_'), c.utf8Size = 1 := by
      intro c hc
      have hc := mem_takeWhile_imp hc
      rcases Bool.or_eq_true _ _ |>.mp hc with hc | hc
      · exact hdg c hc
      · rw [beq_iff_eq.mp hc]
        rfl
    rw [← byteLength_eq_length ho]
    refine ⟨takes_takeWhile _ cs, ?_⟩
    rw [byteLength_eq_length ho]
    rcases hd : cs.takeWhile (fun c => isDigit c || c == '_') with _ | ⟨c, digits⟩
    · rw [hd] at hs
      simp [isSeparated] at hs
    · simp
  · cases h

theorem scanDigits?_ascii (h : scanDigits? isAsciiDigit cs = some (size, rest)) : Takes cs size rest ∧ 0 < size :=
  scanDigits?_takes (fun _ => utf8Size_of_isAsciiDigit) h

theorem scanExponent?_takes (h : scanExponent? cs = some (size, rest)) : Takes cs size rest := by
  unfold scanExponent? at h
  split at h
  · next e text =>
    split at h
    · next he =>
      have ho : e.utf8Size = 1 := by
        rcases Bool.or_eq_true _ _ |>.mp he with he | he <;> rw [beq_iff_eq.mp he] <;> rfl
      split at h
      next sign digits hs =>
      have hm : Takes text sign digits := by
        split at hs <;> cases hs
        · exact (takes_zero digits).cons '+'
        · exact (takes_zero digits).cons '-'
        · exact takes_zero text
      obtain ⟨⟨more, _⟩, hd, heq⟩ := Option.map_eq_some_iff.mp h
      cases heq
      have ht := (hm.trans (scanDigits?_ascii hd).1).cons e
      rw [ho] at ht
      rwa [show 1 + sign + more = sign + more + 1 by omega]
    · cases h
      exact takes_zero _
  · cases h
    exact takes_zero _

/-- A fraction that starts with its point is not empty. -/
theorem scanFraction?_takes (h : scanFraction? cs = some (size, rest)) :
    Takes cs size rest ∧ (cs.head? = some '.' → 0 < size) := by
  unfold scanFraction? at h
  split at h
  · next text =>
    simp only [Option.bind_eq_some_iff, Option.map_eq_some_iff] at h
    obtain ⟨⟨size', rest'⟩, hd, ⟨more, rest''⟩, he, heq⟩ := h
    cases heq
    have hm : Takes text size' rest' := by
      split at hd
      · split at hd
        · exact (scanDigits?_ascii hd).1
        · cases hd
          exact takes_zero _
      · cases hd
        exact takes_zero _
    have ht := (hm.trans (scanExponent?_takes he)).cons '.'
    refine ⟨?_, fun _ => by omega⟩
    rwa [show 1 + size' + more = size' + more + Char.utf8Size '.' from by
      rw [show Char.utf8Size '.' = 1 from rfl]; omega]
  · next hdo =>
    refine ⟨scanExponent?_takes h, fun hh => ?_⟩
    rcases cs with _ | ⟨c, cs⟩
    · cases hh
    · cases hh
      exact absurd rfl (hdo cs)

theorem fits_endNumber {text : List Char} {kind : TokenKind} (ht : Takes text size cs) (hp : 0 < size)
    (hk : kind ≠ .invalid ∧ (∀ sign, kind ≠ .punct sign) ∧ kind ≠ .jsxText) : (endNumber kind size cs).Fits text := by
  unfold endNumber
  split
  · split
    · exact Scanned.fits_invalid _ _
    · exact Scanned.fits_of_takes ht hp hk
  · exact Scanned.fits_of_takes ht hp hk

theorem fits_scanRadix {isDigit : Char → Bool} {mark : Char} (cs : List Char)
    (hdg : ∀ c, isDigit c → c.utf8Size = 1) (hm : mark.utf8Size = 1) :
    (scanRadix isDigit cs).Fits ('0' :: mark :: cs) := by
  have hz : Char.utf8Size '0' = 1 := rfl
  unfold scanRadix
  split
  · next size rest hd =>
    have ht := ((scanDigits?_takes hdg hd).1.trans ((takes_zero rest).cons 'n')).cons mark |>.cons '0'
    rw [hm, hz] at ht
    exact fits_endNumber ht (by omega) (by simp)
  · next size rest _ hd =>
    have ht := ((scanDigits?_takes hdg hd).1.cons mark).cons '0'
    rw [hm, hz] at ht
    exact fits_endNumber ht (by omega) (by simp)
  · exact Scanned.fits_invalid _ _

theorem fits_scanDecimal (cs : List Char) : (scanDecimal cs).Fits cs := by
  unfold scanDecimal
  split
  · next text =>
    split
    · next size rest hf =>
      obtain ⟨ht, hp⟩ := scanFraction?_takes hf
      exact fits_endNumber ht (hp rfl) (by simp)
    · exact Scanned.fits_invalid _ _
  · split
    · next size rest hd =>
      have ht := (scanDigits?_ascii hd).1.trans ((takes_zero rest).cons 'n')
      exact fits_endNumber ht (by omega) (by simp)
    · next size rest _ hd =>
      split
      · next more rest' hf =>
        obtain ⟨ht, hp⟩ := scanDigits?_ascii hd
        exact fits_endNumber (ht.trans (scanFraction?_takes hf).1) (by omega) (by simp)
      · exact Scanned.fits_invalid _ _
    · exact Scanned.fits_invalid _ _

theorem fits_scanLegacyNumber (hc : isAsciiDigit c) : (scanLegacyNumber (c :: cs)).Fits (c :: cs) := by
  have ho : ∀ d ∈ (c :: cs).takeWhile isAsciiDigit, d.utf8Size = 1 := fun d hd =>
    utf8Size_of_isAsciiDigit (mem_takeWhile_imp hd)
  have ht := takes_takeWhile isAsciiDigit (c :: cs)
  have hp : 0 < ((c :: cs).takeWhile isAsciiDigit).length := by
    rw [takeWhile_cons, if_pos hc]
    simp
  rw [byteLength_eq_length ho] at ht
  simp only [scanLegacyNumber, drop_length_takeWhile]
  split
  · exact fits_endNumber ht hp (by simp)
  · split
    · next more rest hf => exact fits_endNumber (ht.trans (scanFraction?_takes hf).1) (by omega) (by simp)
    · exact Scanned.fits_invalid _ _

theorem fits_scanNumber (cs : List Char) : (scanNumber cs).Fits cs := by
  have hbi : ∀ c : Char, (c == '0' || c == '1') = true → c.utf8Size = 1 := by
    intro c hc
    rcases Bool.or_eq_true _ _ |>.mp hc with hc | hc <;> rw [beq_iff_eq.mp hc] <;> rfl
  have hm : ∀ {a b c : Char}, a.utf8Size = 1 → b.utf8Size = 1 → (c == a || c == b) = true →
      c.utf8Size = 1 := by
    intro a b c ha hb hc
    rcases Bool.or_eq_true _ _ |>.mp hc with hc | hc <;> rw [beq_iff_eq.mp hc] <;> assumption
  unfold scanNumber
  split
  · next mark rest =>
    split
    · next hx => exact fits_scanRadix rest (fun _ => utf8Size_of_hexValue?) (hm rfl rfl hx)
    · split
      · next ho => exact fits_scanRadix rest (fun _ => utf8Size_of_octalValue?) (hm rfl rfl ho)
      · split
        · next hb => exact fits_scanRadix rest hbi (hm rfl rfl hb)
        · split
          · exact fits_scanLegacyNumber rfl
          · split
            · exact Scanned.fits_invalid _ _
            · exact fits_scanDecimal _
  · exact fits_scanDecimal _

/-! ### Strings, templates and regular expressions -/

theorem splitQuoted?_eq_some {quote : Char} {inside : List Char}
    (h : splitQuoted? quote escaped cs = some (inside, rest)) : cs = inside ++ quote :: rest := by
  fun_induction splitQuoted? quote escaped cs generalizing inside rest with
  | case1 => cases h
  | case2 cs ih =>
    obtain ⟨⟨_, _⟩, hr, heq⟩ := Option.map_eq_some_iff.mp h
    cases heq
    rw [ih hr]
    rfl
  | case3 c cs _ ih =>
    obtain ⟨⟨_, _⟩, hr, heq⟩ := Option.map_eq_some_iff.mp h
    cases heq
    rw [ih hr]
    rfl
  | case4 c cs hq =>
    cases h
    rw [beq_iff_eq.mp hq]
    rfl
  | case5 => cases h
  | case6 c cs _ _ ih =>
    obtain ⟨⟨_, _⟩, hr, heq⟩ := Option.map_eq_some_iff.mp h
    cases heq
    rw [ih hr]
    rfl

theorem fits_scanString {quote : Char} (cs : List Char) (hq : quote.utf8Size = 1) :
    (scanString quote cs).Fits (quote :: cs) := by
  unfold scanString
  split
  · next inside rest hs =>
    split
    · have ht := ((takes_append inside (quote :: rest)).trans ((takes_zero rest).cons quote)).cons quote
      rw [← splitQuoted?_eq_some hs, hq] at ht
      exact Scanned.fits_of_takes (by simpa using ht) (by omega) (by simp)
    · exact Scanned.fits_invalid _ _
  · exact Scanned.fits_invalid _ _

/-- What ends a part of a template literal. -/
def templateEnd (closed : Bool) : List Char := if closed then ['`'] else ['$', '\x7b']

theorem splitTemplate?_eq_some {closed : Bool} {part : List Char}
    (h : splitTemplate? escaped cs = some (part, closed, rest)) : cs = part ++ (templateEnd closed ++ rest) := by
  fun_induction splitTemplate? escaped cs generalizing part closed rest with
  | case1 => cases h
  | case2 c cs ih =>
    obtain ⟨⟨_, _, _⟩, hr, heq⟩ := Option.map_eq_some_iff.mp h
    cases heq
    rw [ih hr]
    rfl
  | case3 c cs hc =>
    cases h
    rw [beq_iff_eq.mp hc]
    rfl
  | case4 c _ hc rest =>
    cases h
    rw [beq_iff_eq.mp hc]
    rfl
  | case5 c cs _ hc _ ih =>
    obtain ⟨⟨_, _, _⟩, hr, heq⟩ := Option.map_eq_some_iff.mp h
    cases heq
    rw [ih hr]
    rfl
  | case6 c cs _ _ ih =>
    obtain ⟨⟨_, _, _⟩, hr, heq⟩ := Option.map_eq_some_iff.mp h
    cases heq
    rw [ih hr]
    rfl

theorem fits_scanTemplate {first : Char} (cs : List Char) (hf : first.utf8Size = 1) :
    (scanTemplate cs).Fits (first :: cs) := by
  unfold scanTemplate
  split
  · next part closed rest hs =>
    have he : byteLength (templateEnd closed) + 1 = if closed then 2 else 3 := by cases closed <;> rfl
    have ht := ((takes_append part _).trans (takes_append (templateEnd closed) rest)).cons first
    rw [← splitTemplate?_eq_some hs, hf, Nat.add_assoc, he] at ht
    exact Scanned.fits_of_takes ht (by split <;> omega) (by simp)
  · exact Scanned.fits_invalid _ _

theorem splitRegex?_eq_some {inClass : Bool} {body : List Char}
    (h : splitRegex? escaped inClass cs = some (body, rest)) : cs = body ++ '/' :: rest := by
  fun_induction splitRegex? escaped inClass cs generalizing body rest with
  | case1 => cases h
  | case2 => cases h
  | case3 escaped inClass c cs _ hc =>
    cases h
    simp only [Bool.and_eq_true, beq_iff_eq] at hc
    rw [hc.2]
    rfl
  | case4 =>
    rename_i ih
    obtain ⟨⟨_, _⟩, hr, heq⟩ := Option.map_eq_some_iff.mp h
    cases heq
    rw [ih hr]
    rfl

theorem utf8Size_of_areFlags (h : areFlags cs) : ∀ c ∈ cs, c.utf8Size = 1 := by
  induction cs with
  | nil => simp
  | cons c cs ih =>
    simp only [areFlags, Bool.and_eq_true] at h
    intro d hd
    rcases mem_cons.mp hd with rfl | hd
    · have hf : ∀ e ∈ "dgimsuvy".toList, e.utf8Size = 1 := by
        simp only [String.reduceToList, forall_mem_cons, not_mem_nil, false_implies, implies_true]
        decide
      exact hf d (by simpa using h.1.1)
    · exact ih h.2 d hd

theorem fits_scanRegex (cs : List Char) : (scanRegex cs).Fits ('/' :: cs) := by
  unfold scanRegex
  split
  · next body rest hs =>
    simp only [drop_length_takeWhile]
    split
    · next hf =>
      simp only [validFlags, Bool.and_eq_true] at hf
      have ht := (((takes_append body ('/' :: rest)).trans ((takes_zero rest).cons '/')).trans
        (takes_takeWhile isIdentifierPart rest)).cons '/'
      rw [← splitRegex?_eq_some hs, byteLength_eq_length (utf8Size_of_areFlags hf.1)] at ht
      refine Scanned.fits_of_takes ?_ (by omega) (by simp)
      rw [show Char.utf8Size '/' = 1 from rfl] at ht
      rwa [show byteLength body + 2 + (rest.takeWhile isIdentifierPart).length =
        byteLength body + (0 + 1) + (rest.takeWhile isIdentifierPart).length + 1 by omega]
    · exact Scanned.fits_invalid _ _
  · exact Scanned.fits_invalid _ _

/-! ### Signs -/

theorem spelling_props : ∀ entry ∈ spellings, byteLength entry.1 = entry.1.length ∧ 0 < entry.1.length := by
  decide

/-- A sign of a table is spelled as the table says. -/
theorem fits_scanPunctOf {table : List (List Char × Punct)} (ht : table ⊆ spellings) (cs : List Char) :
    (scanPunctOf table cs).Fits cs := by
  unfold scanPunctOf
  split
  · next spelling sign hf =>
    have hm := ht (mem_of_find?_eq_some hf)
    have hs := find?_some hf
    obtain ⟨rest, rfl⟩ := isPrefixOf_iff_prefix.mp hs
    obtain ⟨hb, hp⟩ := spelling_props _ hm
    rw [drop_left]
    exact Scanned.fits_of_spelling hm hb.symm hp
  · exact Scanned.fits_invalid _ _

theorem fits_scanPunct (cs : List Char) : (scanPunct cs).Fits cs := by
  have hp : punctTable ⊆ spellings := subset_append_left ..
  unfold scanPunct
  split
  · next d rest =>
    split
    · exact Scanned.fits_of_spelling (show (['?'], Punct.question) ∈ spellings by decide) rfl Nat.one_pos
    · exact fits_scanPunctOf hp _
  · exact fits_scanPunctOf hp _

theorem fits_scanGreater (cs : List Char) : (scanPunctOf greaterTable cs).Fits cs :=
  fits_scanPunctOf (subset_append_right ..) cs

theorem fits_scanLess (cs : List Char) : (scanLess cs).Fits cs := by
  unfold scanLess
  split
  · exact Scanned.fits_of_spelling (show (['<'], Punct.less) ∈ spellings by decide) rfl Nat.one_pos
  · exact Scanned.fits_invalid _ _

/-! ### Tokens -/

theorem fits_eof : (Scanned.mk .eof 0 []).Fits [] :=
  ⟨Or.inr ⟨by simp, takes_zero [], Or.inl rfl⟩, fun _ h => (by cases h), fun h => by cases h⟩

theorem fits_scanToken (cs : List Char) : (scanToken cs).Fits cs := by
  unfold scanToken
  split
  · exact fits_eof
  · next c rest =>
    split
    · exact fits_scanWord _
    · split
      · exact fits_scanNumber _
      · split
        · next hq =>
          refine fits_scanString rest ?_
          rcases Bool.or_eq_true _ _ |>.mp hq with h | h <;> rw [beq_iff_eq.mp h] <;> rfl
        · split
          · next h => exact fits_scanTemplate rest (by rw [beq_iff_eq.mp h]; rfl)
          · split
            · next h =>
              rw [beq_iff_eq.mp h]
              exact fits_scanPrivateName rest
            · split
              · exact fits_scanNumber _
              · exact fits_scanPunct _

theorem fits_scanJsxChild (cs : List Char) : (scanJsxChild cs).Fits cs := by
  unfold scanJsxChild
  split
  · exact fits_eof
  · exact Scanned.fits_of_spelling (show (['\x7b'], Punct.lbrace) ∈ spellings by decide) rfl Nat.one_pos
  · exact Scanned.fits_of_spelling (show (['<'], Punct.less) ∈ spellings by decide) rfl Nat.one_pos
  · next hn hb hl =>
    simp only [drop_length_takeWhile]
    split
    · exact Scanned.fits_invalid _ _
    · next hp =>
      refine ⟨Or.inr ⟨by simp, takes_takeWhile _ cs, Or.inr ?_⟩, fun _ h => (by cases h), fun _ => ?_⟩
      · rcases cs with _ | ⟨c, cs⟩
        · exact absurd rfl hn
        · have hc : (c != '\x7b' && c != '<') := by
            rw [Bool.and_eq_true, bne_iff_ne, bne_iff_ne]
            exact ⟨fun h => hb cs (by rw [h]), fun h => hl cs (by rw [h])⟩
          have := c.utf8Size_pos
          dsimp only
          rw [takeWhile_cons, if_pos hc, byteLength_cons]
          omega
      · refine ⟨_, takeWhile_append_dropWhile.symm, fun c hc => ?_⟩
        have ho := mem_takeWhile_imp hc
        have hcl : ¬ (c == '>' || c == '\x7d') = true := fun h => hp (any_eq_true.mpr ⟨c, hc, h⟩)
        simp only [Bool.and_eq_true, bne_iff_ne, Bool.or_eq_true, beq_iff_eq, not_or] at ho hcl
        simp [isBracket, ho, hcl]

theorem fits_scanJsxString? {scanned : Scanned} (h : scanJsxString? cs = some scanned) : scanned.Fits cs := by
  unfold scanJsxString? at h
  split at h
  · next q rest =>
    split at h
    · next hq =>
      have ho : q.utf8Size = 1 := by
        rcases Bool.or_eq_true _ _ |>.mp hq with h | h <;> rw [beq_iff_eq.mp h] <;> rfl
      simp only [drop_length_takeWhile] at h
      split at h
      · next c after ha =>
        cases h
        have hc : c = q := by
          have := head?_dropWhile_not (· != q) rest
          rw [ha] at this
          simpa using this
        subst hc
        have ht := ((takes_takeWhile (· != c) rest).trans (ha ▸ (takes_zero after).cons c)).cons c
        rw [ho] at ht
        refine Scanned.fits_of_takes ?_ (by omega) (by simp)
        simpa using ht
      · cases h
        exact Scanned.fits_invalid _ _
    · cases h
  · cases h

end Polyview.Script
