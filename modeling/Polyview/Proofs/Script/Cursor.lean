import Polyview.Proofs.Script.Scan

/-! # Cursors on a text

A cursor stands *on* a text if its offsets are those of the texts that it holds: the current token starts at
`here` and is followed by `rest`, and the token before ended not later than the current one starts. All
moves of a cursor keep it on its text, and none goes back. -/

namespace Polyview.Script

open Text

variable {scanned : Scanned} {text : List Char}

/-- Whether there is a token: neither the end of the text nor characters that make up none. -/
def TokenKind.isSolid : TokenKind → Bool
  | .eof => false
  | .invalid => false
  | _ => true

/-- A cursor stands on a text. -/
structure Cursor.On (source : List Char) (c : Cursor) : Prop where
  here : Follows source c.token.span.start c.here
  rest : Follows source c.token.span.stop c.rest
  prev : Boundary source c.prevStop
  prev_le : c.prevStop ≤ c.token.span.start
  le : c.token.span.start ≤ c.token.span.stop
  solid : c.token.kind.isSolid = true → c.token.span.start < c.token.span.stop
  sign : ∀ sign, c.token.kind = .punct sign → ∃ spelling, (spelling, sign) ∈ spellings ∧ c.here = spelling ++ c.rest
  plain : c.token.kind = .jsxText → Unmarked c.here c.rest

/-! ### Gaps -/

/-- A character in front of what is skipped is skipped as well. -/
theorem skips_cons {n stop : ℕ} {c : Char} {cs rest : List Char}
    (h : ∃ size, stop = n + c.utf8Size + size ∧ Takes cs size rest) :
    ∃ size, stop = n + size ∧ Takes (c :: cs) size rest := by
  obtain ⟨size, hs, ht⟩ := h
  exact ⟨size + c.utf8Size, by omega, ht.cons c⟩

section Gaps

variable {opens starred : Bool} {gap : Gap} {n start : ℕ} {c : Char} {cs : List Char}

-- `delta` instead of `unfold`: deriving the equations of `skipGap` takes much longer than all proofs about it.

theorem skipGap_lineBreak (h : isLineBreak c) : skipGap opens .blank gap n (c :: cs) =
    skipGap opens .blank gap.addNewline (n + c.utf8Size) cs := by
  delta skipGap
  exact if_pos h

theorem skipGap_spacing (hb : ¬ isLineBreak c = true) (h : isSpacing c) :
    skipGap opens .blank gap n (c :: cs) = skipGap opens .blank gap (n + c.utf8Size) cs := by
  delta skipGap
  exact (if_neg hb).trans (if_pos h)

theorem skipGap_openLine : skipGap opens .blank gap n ('/' :: '/' :: cs) = skipGap opens (.line n) gap (n + 2) cs := rfl

theorem skipGap_openBlock : skipGap opens .blank gap n ('/' :: '*' :: cs) =
    skipGap opens (.block n false) gap (n + 2) cs := rfl

/-- A gap ends at a character that is neither blank nor the start of a comment. -/
theorem skipGap_end (hbr : ¬ isLineBreak c = true) (hsp : ¬ isSpacing c = true)
    (hl : c = '/' → ∀ rest, cs ≠ '/' :: rest) (hb : c = '/' → ∀ rest, cs ≠ '*' :: rest) :
    skipGap opens .blank gap n (c :: cs) = (gap, n, c :: cs) := by
  delta skipGap
  refine (if_neg hbr).trans ((if_neg hsp).trans ?_)
  by_cases hs : (c == '/') = true
  · refine (if_pos hs).trans ?_
    rw [beq_iff_eq] at hs
    split
    · exact absurd rfl (hl hs _)
    · exact absurd rfl (hb hs _)
    · rfl
  · exact if_neg hs

theorem skipGap_line_cons : skipGap opens (.line start) gap n (c :: cs) = if isLineBreak c then
      skipGap opens .blank (gap.addLine opens ⟨start, n⟩).addNewline (n + c.utf8Size) cs
    else skipGap opens (.line start) gap (n + c.utf8Size) cs := rfl

theorem skipGap_block_cons : skipGap opens (.block start starred) gap n (c :: cs) =
    if starred && c == '/' then skipGap opens .blank (gap.addBlock ⟨start, n + 1⟩) (n + 1) cs
    else if isLineBreak c then skipGap opens (.block start false) { gap with newline := true } (n + c.utf8Size) cs
    else skipGap opens (.block start (c == '*')) gap (n + c.utf8Size) cs := rfl

end Gaps

theorem skipGap_takes (opens : Bool) (mode : GapMode) (gap : Gap) (n : ℕ) (cs : List Char) :
    ∃ size, (skipGap opens mode gap n cs).2.1 = n + size ∧
      Takes cs size (skipGap opens mode gap n cs).2.2 := by
  induction mode, gap, n, cs using skipGap.induct opens with
  | case1 | case2 | case3 => exact ⟨0, rfl, takes_zero _⟩
  | case4 gap n c cs hb ih =>
    rw [skipGap_lineBreak hb]
    exact skips_cons ih
  | case5 gap n c cs hb hs ih =>
    rw [skipGap_spacing hb hs]
    exact skips_cons ih
  | case6 gap n c _ _ hsl rest ih =>
    rw [beq_iff_eq.mp hsl, skipGap_openLine]
    exact skips_cons (skips_cons ih)
  | case7 gap n c _ _ hsl rest ih =>
    rw [beq_iff_eq.mp hsl, skipGap_openBlock]
    exact skips_cons (skips_cons ih)
  | case8 gap n c cs hb hs _ hl hbl =>
    rw [skipGap_end hb hs (fun _ => hl) fun _ => hbl]
    exact ⟨0, rfl, takes_zero _⟩
  | case9 gap n c cs hb hs hsl =>
    rw [beq_iff_eq] at hsl
    rw [skipGap_end hb hs (fun heq => absurd heq hsl) fun heq => absurd heq hsl]
    exact ⟨0, rfl, takes_zero _⟩
  | case10 start gap n c cs hb ih =>
    rw [skipGap_line_cons, if_pos hb]
    exact skips_cons ih
  | case11 start gap n c cs hb ih =>
    rw [skipGap_line_cons, if_neg hb]
    exact skips_cons ih
  | case12 start starred gap n c cs hc ih =>
    rw [skipGap_block_cons, if_pos hc]
    rw [Bool.and_eq_true, beq_iff_eq] at hc
    rw [hc.2]
    exact skips_cons ih
  | case13 start starred gap n c cs hc hb ih =>
    rw [skipGap_block_cons, if_neg hc, if_pos hb]
    exact skips_cons ih
  | case14 start starred gap n c cs hc hb ih =>
    rw [skipGap_block_cons, if_neg hc, if_neg hb]
    exact skips_cons ih

/-! ### Tokens -/

/-- The text behind a token that was scanned. -/
theorem Scanned.Fits.behind (h : scanned.Fits text) : Takes text scanned.size (scanned.behind text) := by
  unfold Scanned.behind
  split
  · next hk =>
    rcases h.size with ⟨-, hs⟩ | ⟨hn, -⟩
    · rw [hs]
      exact takes_zero text
    · exact absurd hk hn
  · next hk =>
    rcases h.size with ⟨hi, -⟩ | ⟨-, ht, -⟩
    · exact absurd hi hk
    · exact ht

theorem Scanned.Fits.solid (h : scanned.Fits text) (hs : scanned.kind.isSolid) : 0 < scanned.size := by
  rcases h.size with ⟨hk, -⟩ | ⟨-, -, hk | hp⟩
  · rw [hk] at hs
    cases hs
  · rw [hk] at hs
    cases hs
  · exact hp

theorem Scanned.Fits.sign_behind (h : scanned.Fits text) {sign : Punct} (hk : scanned.kind = .punct sign) :
    ∃ spelling, (spelling, sign) ∈ spellings ∧ text = spelling ++ scanned.behind text := by
  rw [Scanned.behind, hk]
  exact h.sign sign hk

theorem Scanned.Fits.plain_behind (h : scanned.Fits text) (hk : scanned.kind = .jsxText) :
    Unmarked text (scanned.behind text) := by
  rw [Scanned.behind, hk]
  exact h.plain hk

variable {source : List Char} {c : Cursor}

theorem Cursor.on_place {gap : Gap} {start : ℕ} {here : List Char} {prevStop : ℕ} {comments : List Comment}
    {flawed : Bool} (hh : Follows source start here) (hf : scanned.Fits here) (hp : Boundary source prevStop)
    (hl : prevStop ≤ start) : (Cursor.place gap start here scanned prevStop comments flawed).On source where
  here := hh
  rest := hh.takes hf.behind
  prev := hp
  prev_le := hl
  le := Nat.le_add_right _ _
  solid h := by
    simp only [Cursor.place] at h ⊢
    split at h
    · cases h
    · have := hf.solid h
      omega
  sign sign h := by
    simp only [Cursor.place] at h ⊢
    split at h
    · cases h
    · exact hf.sign_behind h
  plain h := by
    simp only [Cursor.place] at h ⊢
    split at h
    · cases h
    · exact hf.plain_behind h

theorem Cursor.On.stop_boundary (h : c.On source) : Boundary source c.token.span.stop := h.rest.boundary

theorem Cursor.On.next (h : c.On source) : c.next.On source := by
  obtain ⟨size, hs, ht⟩ := skipGap_takes c.token.kind.opensValue .blank {} c.token.span.stop c.rest
  refine Cursor.on_place ?_ (fits_scanToken _) h.stop_boundary ?_
  · rw [hs]
    exact h.rest.takes ht
  · rw [hs]
    exact Nat.le_add_right _ _

theorem Cursor.On.nextJsxChild (h : c.On source) : c.nextJsxChild.On source :=
  Cursor.on_place h.rest (fits_scanJsxChild _) h.stop_boundary (Nat.le_refl _)

theorem Cursor.On.nextJsxValue (h : c.On source) : c.nextJsxValue.On source := by
  unfold Cursor.nextJsxValue
  split
  · next scanned hs => exact Cursor.on_place h.rest (fits_scanJsxString? hs) h.stop_boundary (Nat.le_refl _)
  · exact h.next

theorem Cursor.On.rescan (h : c.On source) {scan : List Char → Scanned} (hf : (scan c.here).Fits c.here) :
    (c.rescan scan).On source where
  here := h.here
  rest := h.here.takes hf.behind
  prev := h.prev
  prev_le := h.prev_le
  le := Nat.le_add_right _ _
  solid hs := by
    have := hf.solid hs
    simp only [Cursor.rescan]
    omega
  sign _ hsi := hf.sign_behind hsi
  plain hp := hf.plain_behind hp

theorem Cursor.on_first {start : ℕ} (h : Follows source start text) : (Cursor.first start text).On source := by
  obtain ⟨size, hs, ht⟩ := skipGap_takes false .blank { fresh := true } start text
  have hh := h.takes ht
  rw [← hs] at hh
  exact Cursor.on_place hh (fits_scanToken _) hh.boundary (Nat.le_refl _)

/-! ### Ends of tokens -/

theorem Cursor.prevStop_next (c : Cursor) : c.next.prevStop = c.token.span.stop := rfl

theorem Cursor.prevStop_nextJsxChild (c : Cursor) : c.nextJsxChild.prevStop = c.token.span.stop := rfl

theorem Cursor.prevStop_nextJsxValue (c : Cursor) : c.nextJsxValue.prevStop = c.token.span.stop := by
  unfold Cursor.nextJsxValue
  split <;> rfl

end Polyview.Script
