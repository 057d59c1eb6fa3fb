import Polyview.Proofs.Source.Offset
import Polyview.Source.Edit

/-! # Splicing

`splice` applies edits from the last to the first, and each one changes the text that the next is applied to.
What comes out for edits that lie apart from each other is simple: `weave` copies the source and puts the new
texts between. `splice_eq_weave` says so for edits in the order of the source. Edits that reach outside of the
spliced span change nothing (`splice_filter`). -/

namespace Polyview

open List Text

variable {source : List Char} {span : Span} {edits more : List Edit} {edit : Edit} {a b c lo mid hi : ℕ}

/-! ### Texts between boundaries -/

theorem chars_between (before middle after : List Char) :
    (Span.mk (byteLength before) (byteLength before + byteLength middle)).chars (before ++ (middle ++ after)) =
      middle := by
  rw [Span.chars, Span.text?, splitBytes?_byteLength]
  dsimp only
  rw [Nat.add_sub_cancel_left, splitBytes?_byteLength]
  rfl

theorem Follows.exists_chars {rest : List Char} (h : Follows source a rest) (hb : Boundary source b)
    (hl : a ≤ b) : ∃ after, Follows source b after ∧ rest = (Span.mk a b).chars source ++ after ∧
      byteLength ((Span.mk a b).chars source) = b - a := by
  obtain ⟨after, ha⟩ := hb
  obtain ⟨taken, rfl, hs⟩ := h.exists_takes ha hl
  obtain ⟨before, rfl, rfl⟩ := h
  have hc : (Span.mk (byteLength before) b).chars (before ++ (taken ++ after)) = taken := by
    obtain rfl : b = byteLength before + byteLength taken := by omega
    exact chars_between before taken after
  exact ⟨after, ha, by rw [hc], by rw [hc, hs]⟩

theorem byteLength_chars (ha : Boundary source a) (hb : Boundary source b) (hl : a ≤ b) :
    byteLength ((Span.mk a b).chars source) = b - a := by
  obtain ⟨rest, hr⟩ := ha
  obtain ⟨-, -, -, hs⟩ := hr.exists_chars hb hl
  exact hs

theorem chars_append (ha : Boundary source a) (hb : Boundary source b) (hc : Boundary source c)
    (hab : a ≤ b) (hbc : b ≤ c) :
    (Span.mk a b).chars source ++ (Span.mk b c).chars source = (Span.mk a c).chars source := by
  obtain ⟨rest, hr⟩ := ha
  obtain ⟨after, haf, hf, -⟩ := hr.exists_chars hb hab
  obtain ⟨last, hl, hs, -⟩ := haf.exists_chars hc hbc
  obtain ⟨last', hl', hw, -⟩ := hr.exists_chars hc (Nat.le_trans hab hbc)
  obtain rfl := hl.unique hl'
  rw [hf, hs, ← append_assoc] at hw
  exact append_cancel_right hw

theorem chars_self (ha : Boundary source a) : (Span.mk a a).chars source = [] := by
  have hs := byteLength_chars ha ha (Nat.le_refl a)
  rwa [Nat.sub_self, byteLength_eq_zero] at hs

/-! ### Separate edits -/

/-- Edits lie one behind the other between two offsets. Each replaces at least one character, and whole
characters only. -/
def Separate (source : List Char) : List Edit → ℕ → ℕ → Prop
  | [], _, _ => True
  | edit :: rest, lo, hi =>
    (lo ≤ edit.span.start ∧ edit.span.start < edit.span.stop ∧ edit.span.stop ≤ hi) ∧
      (Boundary source edit.span.start ∧ Boundary source edit.span.stop) ∧
      Separate source rest edit.span.stop hi

/-- Edits lie one behind the other between two offsets. Each replaces whole characters, or none at all. -/
def Ordered (source : List Char) : List Edit → ℕ → ℕ → Prop
  | [], _, _ => True
  | edit :: rest, lo, hi =>
    (lo ≤ edit.span.start ∧ edit.span.start ≤ edit.span.stop ∧ edit.span.stop ≤ hi) ∧
      (Boundary source edit.span.start ∧ Boundary source edit.span.stop) ∧
      Ordered source rest edit.span.stop hi

/-- The text between two offsets, with edits applied from the first to the last. -/
def weave (source : List Char) : ℕ → ℕ → List Edit → List Char
  | lo, hi, [] => (Span.mk lo hi).chars source
  | lo, hi, edit :: rest =>
    (Span.mk lo edit.span.start).chars source ++ edit.text ++ weave source edit.span.stop hi rest

theorem separate_nil : Separate source [] lo hi := trivial

theorem Separate.ordered (h : Separate source edits lo hi) : Ordered source edits lo hi := by
  induction edits generalizing lo with
  | nil => trivial
  | cons edit rest ih =>
    obtain ⟨hs, hb, hr⟩ := h
    exact ⟨by omega, hb, ih hr⟩

theorem Separate.mono {lo' hi' : ℕ} (h : Separate source edits lo hi) (hl : lo' ≤ lo) (hh : hi ≤ hi') :
    Separate source edits lo' hi' := by
  induction edits generalizing lo lo' with
  | nil => trivial
  | cons edit rest ih =>
    obtain ⟨hs, hb, hr⟩ := h
    exact ⟨by omega, hb, ih hr (Nat.le_refl _)⟩

theorem Separate.append (h : Separate source edits lo mid) (hm : Separate source more mid hi)
    (hl : lo ≤ mid) (hh : mid ≤ hi) : Separate source (edits ++ more) lo hi := by
  induction edits generalizing lo with
  | nil => exact hm.mono hl (Nat.le_refl _)
  | cons edit rest ih =>
    obtain ⟨hs, hb, hr⟩ := h
    exact ⟨by omega, hb, ih hr hs.2.2⟩

theorem Separate.filter (h : Separate source edits lo hi) (test : Edit → Bool) :
    Separate source (edits.filter test) lo hi := by
  induction edits generalizing lo with
  | nil => trivial
  | cons edit rest ih =>
    obtain ⟨hs, hb, hr⟩ := h
    rw [filter_cons]
    split
    · exact ⟨hs, hb, ih hr⟩
    · exact (ih hr).mono (by omega) (Nat.le_refl _)

theorem Separate.bounds (h : Separate source edits lo hi) (hm : edit ∈ edits) :
    (lo ≤ edit.span.start ∧ edit.span.start < edit.span.stop ∧ edit.span.stop ≤ hi) ∧
      Boundary source edit.span.start ∧ Boundary source edit.span.stop := by
  induction edits generalizing lo with
  | nil => cases hm
  | cons first rest ih =>
    obtain ⟨hs, hb, hr⟩ := h
    rcases mem_cons.mp hm with rfl | hm
    · exact ⟨hs, hb⟩
    · have hin := ih hr hm
      exact ⟨by omega, hin.2⟩

theorem Separate.within {lo' hi' : ℕ} (h : Separate source edits lo hi)
    (hin : ∀ edit ∈ edits, lo' ≤ edit.span.start ∧ edit.span.stop ≤ hi') : Separate source edits lo' hi' := by
  induction edits generalizing lo lo' with
  | nil => trivial
  | cons edit rest ih =>
    obtain ⟨hs, hb, hr⟩ := h
    have hf := hin edit (.head _)
    refine ⟨⟨hf.1, hs.2.1, hf.2⟩, hb, ih hr fun other ho => ?_⟩
    exact ⟨(hr.bounds ho).1.1, (hin other (.tail _ ho)).2⟩

/-- The text up to an offset between two groups of edits and the text behind it are woven apart. -/
theorem weave_append (h : Separate source edits lo mid) (hmo : Separate source more mid hi)
    (hlo : Boundary source lo) (hm : Boundary source mid) (hh : Boundary source hi) (hl : lo ≤ mid) (hl' : mid ≤ hi) :
    weave source lo hi (edits ++ more) = weave source lo mid edits ++ weave source mid hi more := by
  induction edits generalizing lo with
  | nil =>
    cases more with
    | nil => exact (chars_append hlo hm hh hl hl').symm
    | cons edit rest =>
      obtain ⟨hs, hb, -⟩ := hmo
      simp only [nil_append, weave, ← append_assoc]
      rw [chars_append hlo hm hb.1 hl hs.1]
  | cons edit rest ih =>
    obtain ⟨hs, hb, hr⟩ := h
    simp only [cons_append, weave, append_assoc]
    rw [ih hr hb.2 hs.2.2]

/-- The text in front of a group of edits, the group, and the text behind it are woven apart. -/
theorem weave_around (h : Separate source edits a b) (hm : Separate source more b hi) (hlo : Boundary source lo)
    (ha : Boundary source a) (hb : Boundary source b) (hh : Boundary source hi) (hl : lo ≤ a) (hab : a ≤ b)
    (hl' : b ≤ hi) : weave source lo hi (edits ++ more) =
      (Span.mk lo a).chars source ++ weave source a b edits ++ weave source b hi more := by
  rw [weave_append (h.mono hl (Nat.le_refl _)) hm hlo hb hh (Nat.le_trans hl hab) hl',
    ← nil_append edits, weave_append separate_nil h hlo ha hb hl hab]
  rfl

/-! ### Splicing separate edits -/

theorem Separate.insertEdit_reverse (h : Separate source (edit :: edits) lo hi) :
    insertEdit edit edits.reverse = edits.reverse ++ [edit] := by
  obtain ⟨hs, -, hr⟩ := h
  have hl : ∀ first ∈ edits.reverse, edit.span.start < first.span.start := by
    intro first hf
    have := (hr.bounds (mem_reverse.mp hf)).1
    omega
  generalize edits.reverse = found at hl
  clear hr
  induction found with
  | nil => rfl
  | cons first rest ih =>
    have hf := hl first (.head _)
    rw [insertEdit, if_neg (by omega), cons_append, ih fun later hm => hl later (.tail _ hm)]

theorem Separate.sortEdits_eq (h : Separate source edits lo hi) : sortEdits edits = edits.reverse := by
  induction edits generalizing lo with
  | nil => rfl
  | cons edit rest ih =>
    have hr := ih h.2.2
    rw [sortEdits] at hr ⊢
    rw [foldr_cons, hr, h.insertEdit_reverse, reverse_cons]

/-- Applying an edit to a text that is still the source up to its end. -/
theorem applyEdit_chars {tail : List Char} (hlo : Boundary source span.start)
    (hbd : span.start ≤ edit.span.start ∧ edit.span.start ≤ edit.span.stop ∧ edit.span.stop ≤ span.stop)
    (hst : Boundary source edit.span.start) (hs : Boundary source edit.span.stop) :
    applyEdit span ((Span.mk span.start edit.span.stop).chars source ++ tail) edit =
      (Span.mk span.start edit.span.start).chars source ++ edit.text ++ tail := by
  obtain ⟨hf, hle, hl⟩ := hbd
  have hw : edit.span.within span := by simp [Span.within, hf, hl]
  have hb := byteLength_chars hlo hst hf
  have hr := byteLength_chars hst hs hle
  rw [applyEdit, if_pos hw, ← chars_append hlo hst hs hf hle, append_assoc, replaceBytes, ← hb, splitBytes?_byteLength]
  dsimp only
  have hsi : edit.span.stop - span.start - byteLength ((Span.mk span.start edit.span.start).chars source) =
      byteLength ((Span.mk edit.span.start edit.span.stop).chars source) := by omega
  rw [hsi, splitBytes?_byteLength]

theorem foldr_applyEdit (hs : Boundary source span.start) (hso : Boundary source span.stop)
    (h : Ordered source edits lo span.stop) (hl : Boundary source lo) (hf : span.start ≤ lo) (hle : lo ≤ span.stop) :
    edits.foldr (fun edit text => applyEdit span text edit) (span.chars source) =
      (Span.mk span.start lo).chars source ++ weave source lo span.stop edits := by
  -- The text in front of `lo` is still the source, since all edits are behind it.
  induction edits generalizing lo with
  | nil => exact (chars_append hs hl hso hf hle).symm
  | cons edit rest ih =>
    obtain ⟨hsp, hb, hr⟩ := h
    rw [foldr_cons, ih hr hb.2 (by omega) (by omega), applyEdit_chars hs (by omega) hb.1 hb.2,
      ← chars_append hs hl hb.1 hf hsp.1, weave]
    simp only [append_assoc]

/-- **Splicing separate edits** copies the source around the new texts. -/
theorem splice_eq_weave (h : Separate source edits span.start span.stop) (hs : Boundary source span.start)
    (hso : Boundary source span.stop) (hl : span.start ≤ span.stop) :
    splice source span edits = weave source span.start span.stop edits := by
  rw [splice, h.sortEdits_eq, foldl_reverse,
    foldr_applyEdit hs hso h.ordered hs (Nat.le_refl _) hl, chars_self hs, nil_append]

/-- Edits that reach outside of the spliced span change nothing. -/
theorem splice_filter (h : Separate source edits lo hi) :
    splice source span (edits.filter fun edit => edit.span.within span) = splice source span edits := by
  have hs : (fun text edit => if edit.span.within span then applyEdit span text edit else text) =
      applyEdit span := by
    funext text edit
    rw [applyEdit]
    split <;> rfl
  rw [splice, splice, (h.filter _).sortEdits_eq, h.sortEdits_eq, ← filter_reverse, foldl_filter, hs]

/-! ### Edits that fit -/

/-- Edits of a span: each replaces whole characters inside of it, and no two overlap. -/
structure Fits (source : List Char) (span : Span) (edits : List Edit) : Prop where
  apart : edits.Pairwise fun edit other => edit.span.stop ≤ other.span.start ∨ other.span.stop ≤ edit.span.start
  inside : ∀ edit ∈ edits, span.start ≤ edit.span.start ∧ edit.span.start < edit.span.stop ∧ edit.span.stop ≤ span.stop
  whole : ∀ edit ∈ edits, Boundary source edit.span.start ∧ Boundary source edit.span.stop

theorem Separate.fits (h : Separate source edits span.start span.stop) : Fits source span edits where
  apart := by
    generalize span.start = lo at h
    induction edits generalizing lo with
    | nil => exact List.Pairwise.nil
    | cons edit rest ih =>
      refine List.Pairwise.cons (fun other ho => .inl ?_) (ih _ h.2.2)
      exact (h.2.2.bounds ho).1.1
  inside _ hm := (h.bounds hm).1
  whole _ hm := (h.bounds hm).2

/-- Edits are spliced cleanly: the span is one of whole characters, the edits fit, and splicing copies the source around
all of their texts. -/
structure SplicesCleanly (source : List Char) (span : Span) (edits : List Edit) : Prop where
  start : Boundary source span.start
  stop : Boundary source span.stop
  fits : Fits source span edits
  woven : splice source span edits = weave source span.start span.stop edits

theorem Separate.splicesCleanly (h : Separate source edits span.start span.stop)
    (hst : Boundary source span.start) (hs : Boundary source span.stop) (hl : span.start ≤ span.stop) :
    SplicesCleanly source span edits :=
  ⟨hst, hs, h.fits, splice_eq_weave h hst hs hl⟩

/-! ### Insertions -/

/-- The text between two offsets, with texts inserted at offsets from the first to the last. -/
def inserted (source : List Char) : ℕ → ℕ → List (ℕ × List Char) → List Char
  | lo, hi, [] => (Span.mk lo hi).chars source
  | lo, hi, (offset, text) :: rest => (Span.mk lo offset).chars source ++ text ++ inserted source offset hi rest

/-- Insertions follow each other between two offsets, and each is between characters. -/
def InOrder (source : List Char) : List (ℕ × List Char) → ℕ → ℕ → Prop
  | [], _, _ => True
  | (offset, _) :: rest, lo, hi => lo ≤ offset ∧ offset ≤ hi ∧ Boundary source offset ∧ InOrder source rest offset hi

variable {insertions others : List (ℕ × List Char)}

theorem inOrder_nil : InOrder source [] lo hi := trivial

theorem InOrder.mono {lo' hi' : ℕ} (h : InOrder source insertions lo hi) (hlo : lo' ≤ lo) (hh : hi ≤ hi') :
    InOrder source insertions lo' hi' := by
  induction insertions generalizing lo lo' with
  | nil => trivial
  | cons insertion rest ih =>
    obtain ⟨hf, hl, hb, hr⟩ := h
    exact ⟨by omega, by omega, hb, ih hr (Nat.le_refl _)⟩

theorem InOrder.append (h : InOrder source insertions lo mid) (ho : InOrder source others mid hi)
    (hlo : lo ≤ mid) (hh : mid ≤ hi) : InOrder source (insertions ++ others) lo hi := by
  induction insertions generalizing lo with
  | nil => exact ho.mono hlo (Nat.le_refl _)
  | cons insertion rest ih =>
    obtain ⟨hf, hl, hb, hr⟩ := h
    exact ⟨hf, by omega, hb, ih hr hl⟩

theorem InOrder.bounds (h : InOrder source insertions lo hi) : ∀ insertion ∈ insertions, lo ≤ insertion.1 := by
  induction insertions generalizing lo with
  | nil => nofun
  | cons first rest ih =>
    obtain ⟨hf, -, -, hr⟩ := h
    intro insertion hm
    rcases mem_cons.mp hm with rfl | hm
    · exact hf
    · exact Nat.le_trans hf (ih hr insertion hm)

theorem InOrder.within {lo' hi' : ℕ} (h : InOrder source insertions lo hi)
    (hin : ∀ insertion ∈ insertions, lo' ≤ insertion.1 ∧ insertion.1 ≤ hi') : InOrder source insertions lo' hi' := by
  induction insertions generalizing lo lo' with
  | nil => trivial
  | cons first rest ih =>
    obtain ⟨-, -, hb, hr⟩ := h
    have hf := hin first (.head _)
    refine ⟨hf.1, hf.2, hb, ih hr fun insertion hm => ?_⟩
    exact ⟨hr.bounds insertion hm, (hin insertion (.tail _ hm)).2⟩

/-- The text up to an offset between two groups of insertions and the text behind it are put together. -/
theorem inserted_append (h : InOrder source insertions lo mid) (ho : InOrder source others mid hi)
    (hlo : Boundary source lo) (hm : Boundary source mid) (hh : Boundary source hi) (hle : lo ≤ mid)
    (hl' : mid ≤ hi) : inserted source lo hi (insertions ++ others) =
      inserted source lo mid insertions ++ inserted source mid hi others := by
  induction insertions generalizing lo with
  | nil =>
    cases others with
    | nil => exact (chars_append hlo hm hh hle hl').symm
    | cons first rest =>
      obtain ⟨hf, -, hb, -⟩ := ho
      simp only [nil_append, inserted, ← append_assoc]
      rw [chars_append hlo hm hb hle hf]
  | cons first rest ih =>
    obtain ⟨-, hl, hb, hr⟩ := h
    simp only [cons_append, inserted, append_assoc]
    rw [ih hr hb hl]

end Polyview
