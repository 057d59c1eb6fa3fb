import Polyview.Proofs.Script.Cursor
import Polyview.Proofs.Script.Run
import Polyview.Text.Naming

/-! # Cursors in a text

Where a cursor stands in a text, the token in front of it is the first one of the text. The lemmas here say which token
that is and where the cursor goes from there, for plain names, for dots and for signs. -/

namespace Polyview.Script

open List Text

variable {c : Cursor} {name text rest : List Char}

/-! ### Characters -/

/-- Characters that are no part of a gap and start no comment. -/
def isInk (c : Char) : Bool := !isLineBreak c && !isSpacing c && c != '/'

/-- What holds of the first 128 characters holds of each of them. -/
theorem forall_plain {p : Char → Bool} (h : ∀ n : Fin 128, p (Char.ofNat n)) {c : Char} (hc : c.toNat < 128) :
    p c := by
  have := h ⟨c.toNat, hc⟩
  rwa [Char.ofNat_toNat] at this

theorem lt_of_isNamePart {c : Char} (h : isNamePart c) : c.toNat < 128 := by
  simp only [isNamePart, isNameStart, isAsciiUpper, isAsciiLower, isAsciiDigit, Bool.or_eq_true, Bool.and_eq_true,
    decide_eq_true_eq, beq_iff_eq, Char.le_def, UInt32.le_iff_toNat_le] at h
  change c.val.toNat < 128
  rcases h with (((h | h) | rfl) | rfl) | h
  · exact Nat.lt_of_le_of_lt h.2 (by decide)
  · exact Nat.lt_of_le_of_lt h.2 (by decide)
  · decide
  · decide
  · exact Nat.lt_of_le_of_lt h.2 (by decide)

theorem isIdentifierPart_of_isNamePart {c : Char} (h : isNamePart c) : isIdentifierPart c := by
  have hp := forall_plain (p := fun c => !isNamePart c || isIdentifierPart c) (by decide) (lt_of_isNamePart h)
  simpa [h] using hp

/-- What is known of the first character of a plain identifier. -/
theorem char_of_isNameStart {c : Char} (h : isNameStart c) :
    isIdentifierStart c ∧ isInk c ∧ isAsciiDigit c = false ∧ c ≠ '.' := by
  have hp : isNamePart c := by rw [isNamePart, h, Bool.true_or]
  have hpl := forall_plain
    (p := fun c => !isNameStart c || (isIdentifierStart c && isInk c && !isAsciiDigit c && c != '.'))
    (by decide) (lt_of_isNamePart hp)
  simpa [h, and_assoc] using hpl

/-- A plain identifier: its first character, and that all of them continue words. -/
theorem chars_of_isIdentifier (h : isIdentifierChars name) :
    (∃ first more, name = first :: more ∧ isNameStart first) ∧ ∀ c ∈ name, isIdentifierPart c := by
  cases name with
  | nil => cases h
  | cons first more =>
    rw [isIdentifierChars, Bool.and_eq_true, all_eq_true] at h
    refine ⟨⟨first, more, rfl, h.1⟩, fun c hc => isIdentifierPart_of_isNamePart ?_⟩
    rcases mem_cons.mp hc with rfl | hc
    · rw [isNamePart, h.1, Bool.true_or]
    · exact h.2 c hc

/-! ### Tokens -/

/-- A text that does not go on with a word. -/
def EndsWord (text : List Char) : Prop := ∀ c ∈ text.head?, isIdentifierPart c = false ∧ c ≠ '\\'

theorem scanToken_name (hn : isIdentifierChars name) (hr : EndsWord rest) :
    scanToken (name ++ rest) = ⟨wordKind name false, byteLength name, rest⟩ := by
  obtain ⟨⟨first, more, rfl, hf⟩, hp⟩ := chars_of_isIdentifier hn
  obtain ⟨hst, -⟩ := char_of_isNameStart hf
  have ht : rest.takeWhile isIdentifierPart = [] ∧ rest.dropWhile isIdentifierPart = rest := by
    cases rest with
    | nil => exact ⟨rfl, rfl⟩
    | cons c cs =>
      have hc := (hr c rfl).1
      exact ⟨takeWhile_cons_of_neg (by simp [hc]), dropWhile_cons_of_neg (by simp [hc])⟩
  have hs : scanName? (first :: more ++ rest) = some (first :: more, false, byteLength (first :: more), rest) := by
    unfold scanName?
    rw [takeWhile_append_of_pos hp, dropWhile_append_of_pos hp, ht.1, ht.2, append_nil]
    dsimp only
    split
    · next tail => exact absurd rfl (hr '\\' rfl).2
    · rw [if_pos hst]
  rw [cons_append, scanToken, hst, Bool.true_or, if_pos rfl, scanWord, ← cons_append, hs]

theorem scanToken_dot (hn : isIdentifierChars name) :
    scanToken ('.' :: (name ++ rest)) = ⟨.punct .dot, 1, name ++ rest⟩ := by
  obtain ⟨⟨first, more, rfl, hfs⟩, -⟩ := chars_of_isIdentifier hn
  obtain ⟨-, -, hdg, hd⟩ := char_of_isNameStart hfs
  have hf : scanPunctOf punctTable ('.' :: first :: (more ++ rest)) = ⟨.punct .dot, 1, first :: (more ++ rest)⟩ := by
    unfold scanPunctOf punctTable
    rw [find?_cons_of_neg (by simp [hd.symm])]
    rfl
  rw [cons_append, scanToken]
  simp only [head?_cons, Option.map_some, hdg, Option.getD_some, Bool.and_false]
  exact hf

/-! ### Cursors -/

/-- The cursor stands at the first token of a text. -/
structure Cursor.At (c : Cursor) (text : List Char) : Prop where
  kind : c.token.kind = (scanToken text).kind
  rest : c.rest = (scanToken text).behind text

/-- All that a rule reads where the given code stands, in whatever text, passes a test. What a decorator names ends in
front of a bracket, so code with an index is not read there. -/
def AlwaysReads (rule : Parse Node) (code : String) (indexed : Bool) (test : Node → Bool) : Prop :=
  ∀ ⦃context : Context⦄ ⦃c : Cursor⦄ ⦃node : Node⦄ ⦃c' : Cursor⦄ ⦃behind : List Char⦄,
    (context.inDecorator = true → indexed = false) → Runs rule context c node c' → c.At (code.toList ++ behind) →
    test node = true

/-- The first token of a text starts with the given character, at once or behind a blank. -/
structure Starts (text : List Char) (first : Char) (more : List Char) : Prop where
  dark : isLineBreak first = false ∧ isSpacing first = false
  slash : first = '/' → ∀ c ∈ more.head?, c ≠ '/' ∧ c ≠ '*'
  spelled : text = first :: more ∨ text = ' ' :: first :: more

/-- A text whose first token starts at once or behind a blank. -/
def Inked (text : List Char) : Prop := ∃ first more, Starts text first more

/-- The cursor stands at the first token of a text, which may be behind a blank, and on the line where the text starts. -/
def Cursor.Before (c : Cursor) (text : List Char) : Prop :=
  ∃ first more, Starts text first more ∧ c.At (first :: more) ∧ c.token.newline = false

section

variable {first : Char} {more : List Char}

theorem starts_of_isInk (h : isInk first) (hs : text = first :: more ∨ text = ' ' :: first :: more) :
    Starts text first more := by
  rw [isInk, Bool.and_eq_true, Bool.and_eq_true, Bool.not_eq_true', Bool.not_eq_true', bne_iff_ne] at h
  exact ⟨h.1, fun heq => absurd heq h.2, hs⟩

theorem Starts.unique {first' : Char} {more' : List Char} (h : Starts text first more)
    (h' : Starts text first' more') : first = first' ∧ more = more' := by
  have hb : isSpacing ' ' := by decide
  obtain ⟨hd, -, rfl | rfl⟩ := h
  · obtain ⟨-, -, hs | hs⟩ := h'
    · cases hs
      exact ⟨rfl, rfl⟩
    · cases hs
      cases hb.symm.trans hd.2
  · obtain ⟨hd', -, hs | hs⟩ := h'
    · cases hs
      cases hb.symm.trans hd'.2
    · cases hs
      exact ⟨rfl, rfl⟩

theorem Starts.skipGap_eq {opens : Bool} {gap : Gap} {n : ℕ} (h : Starts text first more) :
    skipGap opens .blank gap n (first :: more) = (gap, n, first :: more) := by
  refine skipGap_end (Bool.eq_false_iff.mp h.dark.1) (Bool.eq_false_iff.mp h.dark.2) ?_ ?_
  · rintro hf rest rfl
    exact (h.slash hf '/' rfl).1 rfl
  · rintro hf rest rfl
    exact (h.slash hf '*' rfl).2 rfl

theorem Cursor.before_next (hr : c.rest = text) (h : Inked text) : c.next.Before text := by
  obtain ⟨first, more, hs⟩ := h
  have hsk : ∃ n, skipGap c.token.kind.opensValue .blank {} c.token.span.stop text = ({}, n, first :: more) := by
    rcases hs.spelled with rfl | rfl
    · exact ⟨_, hs.skipGap_eq⟩
    · rw [skipGap_spacing (c := ' ') (by decide) rfl]
      exact ⟨_, hs.skipGap_eq⟩
  obtain ⟨n, hsk⟩ := hsk
  refine ⟨first, more, hs, ?_⟩
  rw [Cursor.next, hr, hsk]
  exact ⟨⟨rfl, rfl⟩, rfl⟩

theorem Cursor.Before.at_of_ink (h : c.Before (first :: rest)) (hf : isInk first) : c.At (first :: rest) := by
  obtain ⟨other, more, hs, ha, -⟩ := h
  obtain ⟨rfl, rfl⟩ := hs.unique (starts_of_isInk hf (.inl rfl))
  exact ha

theorem Cursor.Before.at_of_blank (h : c.Before (' ' :: text)) : c.At text := by
  obtain ⟨first, more, ⟨hd, -, hs | hs⟩, ha, -⟩ := h
  · cases hs
    cases hd.2
  · cases hs
    exact ha

end

theorem wordKind_ne_invalid (name : List Char) (escaped : Bool) : wordKind name escaped ≠ .invalid := by
  unfold wordKind
  split
  · split
    · split <;> exact nofun
    · exact nofun
  · exact nofun

theorem Cursor.At.word (h : c.At (name ++ rest)) (hn : isIdentifierChars name) (hr : EndsWord rest) :
    c.token.kind = wordKind name false ∧ c.rest = rest := by
  obtain ⟨hk, hb⟩ := h
  rw [scanToken_name hn hr] at hk hb
  refine ⟨hk, hb.trans ?_⟩
  unfold Scanned.behind
  split
  · next hi => exact absurd hi (wordKind_ne_invalid name false)
  · rfl

theorem Cursor.At.dot (h : c.At ('.' :: (name ++ rest))) (hn : isIdentifierChars name) :
    c.token.kind = .punct .dot ∧ c.rest = name ++ rest := by
  obtain ⟨hk, hb⟩ := h
  rw [scanToken_dot hn] at hk hb
  exact ⟨hk, hb⟩

/-! ### Signs -/

/-- Signs that are no part of an access, of a call or of types, and change no operand in front of them. -/
def Punct.endsOperand : Punct → Bool
  | .dot | .questionDot | .lbracket | .lparen | .bang | .less | .greater | .shiftLeft | .plusPlus | .minusMinus => false
  | _ => true

/-- A text whose first token is the given sign, so that a word in front of it ends. -/
structure Stops (text : List Char) (sign : Punct) : Prop where
  word : EndsWord text
  token : ∃ first more, Starts text first more ∧ (scanToken (first :: more)).kind = .punct sign

section

variable {sign : Punct} {tail : List Char} {first : Char}

theorem stops_cons (hw : isIdentifierPart first = false ∧ first ≠ '\\') (hf : isInk first)
    (hk : (scanToken (first :: rest)).kind = .punct sign) : Stops (first :: rest) sign :=
  ⟨by rintro c ⟨⟩; exact hw, first, rest, starts_of_isInk hf (.inl rfl), hk⟩

theorem stops_question : Stops (' ' :: '?' :: ' ' :: rest) .question :=
  ⟨by rintro c ⟨⟩; decide, '?', _, starts_of_isInk rfl (.inr rfl), rfl⟩

theorem stops_rbrace : Stops (' ' :: '\x7d' :: rest) .rbrace :=
  ⟨by rintro c ⟨⟩; decide, '\x7d', _, starts_of_isInk rfl (.inr rfl), rfl⟩

theorem stops_comma : Stops (',' :: rest) .comma := stops_cons (by decide) rfl rfl

theorem stops_rparen : Stops (')' :: rest) .rparen := stops_cons (by decide) rfl rfl

theorem stops_lparen : Stops ('(' :: rest) .lparen := stops_cons (by decide) rfl rfl

theorem stops_lbracket : Stops ('[' :: rest) .lbracket := stops_cons (by decide) rfl rfl

theorem stops_rbracket : Stops (']' :: rest) .rbracket := stops_cons (by decide) rfl rfl

theorem stops_plusPlus : Stops ('+' :: '+' :: rest) .plusPlus := stops_cons (by decide) rfl rfl

theorem stops_minusMinus : Stops ('-' :: '-' :: rest) .minusMinus := stops_cons (by decide) rfl rfl

theorem stops_dot (h : isIdentifierChars name) : Stops ('.' :: (name ++ rest)) .dot :=
  stops_cons (by decide) rfl (by rw [scanToken_dot h])

theorem Stops.inked (h : Stops tail sign) : Inked tail := by
  obtain ⟨first, more, hs, -⟩ := h.token
  exact ⟨first, more, hs⟩

theorem Cursor.Before.kind_of_stops (h : c.Before tail) (hst : Stops tail sign) : c.token.kind = .punct sign := by
  obtain ⟨first, more, hs, ha, -⟩ := h
  obtain ⟨first', more', hs', hk⟩ := hst.token
  obtain ⟨rfl, rfl⟩ := hs.unique hs'
  exact ha.kind.trans hk

theorem starts_sign : ∀ entry ∈ punctTable, ∃ first more, entry.1 = first :: more ∧
    (isLineBreak first = false ∧ isSpacing first = false) ∧
    (first = '/' → ∀ c ∈ (more ++ [' ']).head?, c ≠ '/' ∧ c ≠ '*') := by
  unfold punctTable
  repeat refine forall_mem_cons.mpr ⟨⟨_, _, rfl, by decide, by simp⟩, ?_⟩
  exact nofun

theorem scanToken_sign : ∀ entry ∈ punctTable, ∀ rest,
    scanToken (entry.1 ++ ' ' :: rest) = ⟨.punct entry.2, entry.1.length, ' ' :: rest⟩ := by
  unfold punctTable
  repeat refine forall_mem_cons.mpr ⟨fun _ => rfl, ?_⟩
  exact nofun

/-- A sign with blanks around it is read as such. -/
theorem stops_sign (h : (text, sign) ∈ punctTable) : Stops (' ' :: (text ++ ' ' :: rest)) sign := by
  obtain ⟨first, more, rfl, hd, hs⟩ := starts_sign _ h
  refine ⟨by rintro c ⟨⟩; decide, first, more ++ ' ' :: rest, ⟨hd, fun hf c hc => hs hf c ?_, .inr rfl⟩, ?_⟩
  · cases more <;> exact hc
  · exact congrArg Scanned.kind (scanToken_sign _ h rest)

theorem stops_arrow : Stops (' ' :: '=' :: '>' :: ' ' :: rest) .arrow :=
  stops_sign (show (['=', '>'], .arrow) ∈ punctTable by decide)

theorem Cursor.Before.rest_of_sign (h : c.Before (' ' :: (text ++ ' ' :: rest))) (hs : (text, sign) ∈ punctTable) :
    c.rest = ' ' :: rest := by
  have ha := h.at_of_blank.rest
  rw [scanToken_sign _ hs] at ha
  exact ha

end

end Polyview.Script
