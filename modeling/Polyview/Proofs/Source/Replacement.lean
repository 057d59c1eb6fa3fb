import Mathlib.Data.List.Sort
import Polyview.Proofs.Source.Splice

/-! # Replacing side by side

Edits are given to `splice` in any order. It sorts them, applies the last one first, and passes over those that
reach outside of the spliced span. For edits that do not overlap the order is no matter:

* `splice_eq_weave_of_perm`: the text that comes out is the one that is woven from left to right with the edits
  inside of the span, in the order of their starts.
* `splice_replaces`: so edits that reach outside have no effect, and all orders of the list give the same text. -/

namespace Polyview

open List Text

/-- Edits side by side: each replaces a range of whole characters, which may be empty, no two overlap, and no two
start at one offset. -/
structure SideBySide (source : List Char) (edits : List Edit) : Prop where
  range : ∀ edit ∈ edits, edit.span.start ≤ edit.span.stop
  whole : ∀ edit ∈ edits, Boundary source edit.span.start ∧ Boundary source edit.span.stop
  apart : edits.Pairwise fun edit other => edit.span.stop ≤ other.span.start ∨ other.span.stop ≤ edit.span.start
  distinct : edits.Pairwise fun edit other => edit.span.start ≠ other.span.start

/-- The edits that lie inside of a span. -/
def editsWithin (span : Span) (edits : List Edit) : List Edit := edits.filter fun edit => edit.span.within span

/-- Edits in the order in which they start. -/
def FromLeft (edits : List Edit) : Prop := edits.Pairwise fun edit other => edit.span.start < other.span.start

variable {source : List Char} {span : Span} {edits kept other : List Edit} {lo hi : ℕ}

theorem SideBySide.perm (h : SideBySide source edits) (hp : kept.Perm edits) : SideBySide source kept where
  range edit hm := h.range edit (hp.subset hm)
  whole edit hm := h.whole edit (hp.subset hm)
  apart := (hp.pairwise_iff fun ha => ha.symm).mpr h.apart
  distinct := (hp.pairwise_iff fun hn => hn.symm).mpr h.distinct

/-! ### The order of starts -/

/-- A list has one order from left to right. -/
theorem FromLeft.eq_of_perm (h : FromLeft kept) (h' : FromLeft other) (hp : kept.Perm other) : kept = other :=
  hp.eq_of_pairwise (fun _ _ _ _ hl hl' => absurd hl (Nat.lt_asymm hl')) h h'

/-- Sorting by later starts is the insertion sort of the library. -/
theorem sortEdits_eq_insertionSort (edits : List Edit) :
    sortEdits edits = edits.insertionSort fun edit other => other.span.start ≤ edit.span.start := by
  have hin (edit : Edit) (sorted : List Edit) : insertEdit edit sorted =
      sorted.orderedInsert (fun edit other => other.span.start ≤ edit.span.start) edit := by
    induction sorted with
    | nil => rfl
    | cons first rest ih => rw [insertEdit, orderedInsert_cons, ih]
  induction edits with
  | nil => rfl
  | cons edit rest ih =>
    rw [insertionSort_cons, ← ih, ← hin]
    rfl

theorem sortEdits_perm (edits : List Edit) : (sortEdits edits).Perm edits := by
  rw [sortEdits_eq_insertionSort]
  exact perm_insertionSort _ edits

theorem sortEdits_pairwise (edits : List Edit) :
    (sortEdits edits).Pairwise fun edit other => other.span.start ≤ edit.span.start := by
  have ht : Std.Total fun edit other : Edit => other.span.start ≤ edit.span.start :=
    ⟨fun edit other => Nat.le_total other.span.start edit.span.start⟩
  have htr : IsTrans Edit fun edit other => other.span.start ≤ edit.span.start :=
    ⟨fun _ _ _ hl hl' => Nat.le_trans hl' hl⟩
  rw [sortEdits_eq_insertionSort]
  exact pairwise_insertionSort _ edits

/-- What is sorted by later starts, read backwards. -/
theorem fromLeft_reverse_sortEdits (h : SideBySide source (editsWithin span edits)) :
    FromLeft (editsWithin span (sortEdits edits)).reverse := by
  have hd := (h.perm ((sortEdits_perm edits).filter _)).distinct
  have hs := (sortEdits_pairwise edits).filter fun edit => edit.span.within span
  rw [FromLeft, pairwise_reverse]
  refine (hs.and hd).imp fun hb => ?_
  exact Nat.lt_of_le_of_ne hb.1 hb.2.symm

/-- Edits side by side that are in order lie one behind the other. -/
theorem SideBySide.ordered (h : SideBySide source edits) (hle : FromLeft edits)
    (hin : ∀ edit ∈ edits, lo ≤ edit.span.start ∧ edit.span.stop ≤ hi) : Ordered source edits lo hi := by
  induction edits generalizing lo with
  | nil => trivial
  | cons edit rest ih =>
    obtain ⟨ha, hre⟩ := pairwise_cons.mp h.apart
    obtain ⟨hf, hl⟩ := pairwise_cons.mp hle
    have hr := h.range edit (.head _)
    have he := hin edit (.head _)
    refine ⟨⟨he.1, hr, he.2⟩, h.whole edit (.head _), ?_⟩
    refine ih ⟨?_, ?_, hre, (pairwise_cons.mp h.distinct).2⟩ hl fun next hn => ?_
    · exact fun next hn => h.range next (.tail _ hn)
    · exact fun next hn => h.whole next (.tail _ hn)
    · have hlt := hf next hn
      have hw := h.range next (.tail _ hn)
      refine ⟨?_, (hin next (.tail _ hn)).2⟩
      -- A later edit that ended before this one starts would start before it.
      rcases ha next hn with hb | hbe
      · exact hb
      · omega

/-! ### Splicing -/

theorem bounds_of_mem_editsWithin {edit : Edit} (h : edit ∈ editsWithin span edits) :
    span.start ≤ edit.span.start ∧ edit.span.stop ≤ span.stop := by
  simpa [Span.within] using (mem_filter.mp h).2

/-- Only the edits inside of the span are applied. -/
theorem splice_eq_foldl_editsWithin (source : List Char) (span : Span) (edits : List Edit) :
    splice source span edits = (editsWithin span (sortEdits edits)).foldl (applyEdit span) (span.chars source) := by
  have hs : (fun text edit => if edit.span.within span then applyEdit span text edit else text) =
      applyEdit span := by
    funext text edit
    rw [applyEdit]
    split <;> rfl
  rw [splice, editsWithin, foldl_filter, hs]

/-- **Splicing** weaves the edits inside of the span from left to right. -/
theorem splice_eq_weave_of_perm (hst : Boundary source span.start) (hso : Boundary source span.stop)
    (hle : span.start ≤ span.stop) (h : SideBySide source (editsWithin span edits))
    (hp : kept.Perm (editsWithin span edits)) (hl : FromLeft kept) :
    splice source span edits = weave source span.start span.stop kept := by
  have hs : (editsWithin span (sortEdits edits)).reverse = kept := by
    refine (fromLeft_reverse_sortEdits h).eq_of_perm hl ?_
    exact (reverse_perm _).trans (((sortEdits_perm edits).filter _).trans hp.symm)
  have ho : Ordered source kept span.start span.stop :=
    (h.perm hp).ordered hl fun edit hm => bounds_of_mem_editsWithin (hp.subset hm)
  rw [splice_eq_foldl_editsWithin, ← foldr_reverse, hs,
    foldr_applyEdit hst hso ho hst (Nat.le_refl _) hle, chars_self hst, nil_append]

/-- **Splicing edits side by side.** The text of a span comes out with each edit inside of it replaced by its text,
from left to right, and all between them copied. Edits that reach outside have no effect, and neither has the order
in which the edits are listed. -/
theorem splice_replaces (hstart : Boundary source span.start) (hstop : Boundary source span.stop)
    (hle : span.start ≤ span.stop) (h : SideBySide source (editsWithin span edits)) :
    (∃ kept, kept.Perm (editsWithin span edits) ∧ FromLeft kept ∧
      splice source span edits = weave source span.start span.stop kept) ∧
    splice source span (editsWithin span edits) = splice source span edits ∧
    ∀ other : List Edit, other.Perm edits → splice source span other = splice source span edits := by
  obtain ⟨kept, hp, hl⟩ : ∃ kept, kept.Perm (editsWithin span edits) ∧ FromLeft kept :=
    ⟨_, (reverse_perm _).trans ((sortEdits_perm edits).filter _), fromLeft_reverse_sortEdits h⟩
  have hw := splice_eq_weave_of_perm hstart hstop hle h hp hl
  have hs (other : List Edit) (ho : (editsWithin span other).Perm (editsWithin span edits)) :
      splice source span other = splice source span edits := by
    rw [hw]
    exact splice_eq_weave_of_perm hstart hstop hle (h.perm ho) (hp.trans ho.symm) hl
  refine ⟨⟨kept, hp, hl, hw⟩, hs _ ?_, fun other ho => hs other (ho.filter _)⟩
  rw [editsWithin, editsWithin, filter_filter]
  simp

/-- Listed from right to left, with an insertion between two replacements and an edit in front of the span: all
orders of the list give `yy+bZd`. -/
theorem splice_replaces_unsorted : splice ['a', 'é', 'b', 'c', 'd'] ⟨1, 6⟩
      [⟨⟨4, 5⟩, ['Z']⟩, ⟨⟨3, 3⟩, ['+']⟩, ⟨⟨1, 3⟩, ['y', 'y']⟩, ⟨⟨0, 1⟩, ['!']⟩] = ['y', 'y', '+', 'b', 'Z', 'd'] ∧
    ∀ other : List Edit, other.Perm [⟨⟨4, 5⟩, ['Z']⟩, ⟨⟨3, 3⟩, ['+']⟩, ⟨⟨1, 3⟩, ['y', 'y']⟩, ⟨⟨0, 1⟩, ['!']⟩] →
        splice ['a', 'é', 'b', 'c', 'd'] ⟨1, 6⟩ other = ['y', 'y', '+', 'b', 'Z', 'd'] := by
  have ho : Boundary ['a', 'é', 'b', 'c', 'd'] 1 := ⟨['é', 'b', 'c', 'd'], ['a'], rfl, rfl⟩
  have ht : Boundary ['a', 'é', 'b', 'c', 'd'] 3 := ⟨['b', 'c', 'd'], ['a', 'é'], rfl, rfl⟩
  have hfo : Boundary ['a', 'é', 'b', 'c', 'd'] 4 := ⟨['c', 'd'], ['a', 'é', 'b'], rfl, rfl⟩
  have hf : Boundary ['a', 'é', 'b', 'c', 'd'] 5 := ⟨['d'], ['a', 'é', 'b', 'c'], rfl, rfl⟩
  have hsi : Boundary ['a', 'é', 'b', 'c', 'd'] 6 := ⟨[], ['a', 'é', 'b', 'c', 'd'], rfl, rfl⟩
  have he : SideBySide ['a', 'é', 'b', 'c', 'd'] (editsWithin ⟨1, 6⟩
      [⟨⟨4, 5⟩, ['Z']⟩, ⟨⟨3, 3⟩, ['+']⟩, ⟨⟨1, 3⟩, ['y', 'y']⟩, ⟨⟨0, 1⟩, ['!']⟩]) := by
    refine ⟨by decide, ?_, by decide, by decide⟩
    simp [editsWithin, Span.within, ho, ht, hfo, hf]
  obtain ⟨-, -, hs⟩ := splice_replaces ho hsi (by decide) he
  have hr : splice ['a', 'é', 'b', 'c', 'd'] ⟨1, 6⟩
      [⟨⟨4, 5⟩, ['Z']⟩, ⟨⟨3, 3⟩, ['+']⟩, ⟨⟨1, 3⟩, ['y', 'y']⟩, ⟨⟨0, 1⟩, ['!']⟩] =
        ['y', 'y', '+', 'b', 'Z', 'd'] := by decide
  exact ⟨hr, fun other hot => (hs other hot).trans hr⟩

end Polyview
