import Polyview.Proofs.Script.Reading.Type

/-! # What markup reads -/

namespace Polyview.Script

open Node

variable {g : Grammar} [g.Sound] {source : List Char} {context : Context} {c c' : Cursor} {node : Node}
  {nodes : List Node} {betweenTags : Bool} {start : ℕ}

/-! ### Steps between tags -/

attribute [grind =] Cursor.prevStop_nextJsxChild Cursor.prevStop_nextJsxValue

grind_pattern Cursor.On.nextJsxChild => c.nextJsxChild, Follows source 0 source
grind_pattern Cursor.On.nextJsxValue => c.nextJsxValue, Follows source 0 source

theorem Cursor.On.rescan_jsxName (h : c.On source) : (c.rescan scanJsxName).On source := h.rescan (fits_scanJsxName _)

grind_pattern Cursor.On.rescan_jsxName => c.rescan scanJsxName, Follows source 0 source

@[grind →]
theorem Cursor.On.plain_token (h : c.On source) (hk : c.token.kind = .jsxText) :
    Plain source c.token.span.start c.token.span.stop :=
  ⟨c.here, c.rest, h.here, h.rest, h.plain hk⟩

@[simp, grind norm]
theorem runs_nextAfter {done : Unit} : Runs (nextAfter betweenTags) context c done c' ↔
    c' = if betweenTags then c.nextJsxChild else c.next := runs_modify

@[grind .]
theorem moves_expectThen (betweenTags : Bool) (sign : Punct) : Moves (expectThen betweenTags sign) := by
  intro _ _ _ _ _ h hc
  unfold expectThen at h
  grind

/-! ### Names -/

@[grind .]
theorem moves_jsxName : Moves jsxName := by
  intro _ _ _ _ _ h hc
  unfold jsxName at h
  grind

@[grind →]
theorem reads_tagHead {name : String} {isObject : Bool} (h : Runs (tagHead start name isObject) context c node c')
    (hc : c.On source) (hl : start < c.prevStop) : Grows source start [] c node c' := by
  unfold tagHead at h
  grind

@[grind .]
theorem lays_tagName : LaysNode tagName := by
  intro source _ c _ _ h hc
  simp only [tagName, runs_bind] at h
  obtain ⟨start, c₁, hst, name, c₂, hn, isSpace, c₃, hs, h⟩ := h
  simp only [runs_ite, runs_bind] at h
  split at h
  case isTrue => grind
  case isFalse =>
    obtain ⟨isObject, c₄, ho, head, c₅, hh, h⟩ := h
    have hr : ReadsNode source c.token.span.start c head c₅ := by
      clear h
      grind
    refine Runs.extend (ReadsNode source c.token.span.start c) ?_ h hr
    intro object c₆ found c₇ ho hse
    clear h hr
    grind

@[grind →]
theorem isTagName_of_tagName (h : Runs tagName context c node c') : node.shape.isTagName := by
  simp only [tagName, runs_bind] at h
  obtain ⟨start, c₁, hst, name, c₂, hn, isSpace, c₃, hs, h⟩ := h
  simp only [runs_ite, runs_bind] at h
  split at h
  case isTrue => grind [shape, Shape.isTagName]
  case isFalse =>
    obtain ⟨isObject, c₄, ho, head, c₅, hh, h⟩ := h
    refine Runs.extend (fun node _ => node.shape.isTagName = true) ?_ h ?_
    · intro object c₆ found c₇ ho hse
      grind [shape, Shape.isTagName]
    · unfold tagHead at hh
      grind [shape, Shape.isTagName]

/-! ### Attributes -/

@[grind =]
theorem laid_jsxEmpty {span : Span} : (Node.mk .jsxEmpty span []).Laid source ↔
    Boundary source span.start ∧ Boundary source span.stop ∧ span.start ≤ span.stop := by
  simp [laid_mk, Shape.mayBeEmpty, Shape.Requires, row_nil]

@[grind →]
theorem reads_jsxContainer (h : Runs (jsxContainer g start betweenTags) context c node c') (hc : c.On source) :
    start ≤ c.prevStop → Grows source start [] c node c' := by
  unfold jsxContainer at h
  grind

omit [g.Sound] in
@[grind →]
theorem shape_of_jsxContainer (h : Runs (jsxContainer g start betweenTags) context c node c') :
    node.shape = .jsxContainer := by
  unfold jsxContainer at h
  grind [shape]

@[grind →]
theorem isAssigned_of_jsxValue (h : Runs (jsxValue g) context c node c') : IsAssigned node := by
  rw [jsxValue, runs_startOffset_bind, runs_tokenKind_bind] at h
  split at h <;> grind [IsAssigned]

@[grind .]
theorem lays_jsxValue : LaysNode (jsxValue g) := by
  intro _ _ _ _ _ h hc
  rw [jsxValue, runs_startOffset_bind, runs_tokenKind_bind] at h
  split at h <;> grind

@[grind .]
theorem lays_jsxAttribute : LaysNode (jsxAttribute g) := by
  intro _ _ _ _ _ h hc
  unfold jsxAttribute at h
  grind

omit [g.Sound] in
theorem isTagItem_of_jsxAttribute (h : Runs (jsxAttribute g) context c node c') : node.shape.isTagItem := by
  unfold jsxAttribute at h
  grind [shape, Shape.isTagItem]

/-! ### Elements -/

@[grind .]
theorem stays_seesClosingTag : Stays seesClosingTag := by
  intro _ _ _ _ h
  unfold seesClosingTag at h
  grind

@[grind .]
theorem lays_jsxChild : LaysNode (jsxChild g) := by
  intro _ _ _ _ _ h hc
  rw [jsxChild, runs_startOffset_bind, runs_tokenKind_bind] at h
  split at h <;> grind

theorem isContent_of_jsxChild (h : Runs (jsxChild g) context c node c') : node.shape.isContent := by
  rw [jsxChild, runs_startOffset_bind, runs_tokenKind_bind] at h
  split at h <;> grind [shape, Shape.isContent, Shape.isMarkup]

@[grind →]
theorem content_of_jsxChildren (h : Runs (jsxChildren g) context c nodes c') : Content nodes :=
  forall_manyUntil _ (fun _ => True) (fun _ _ => trivial) (fun _ h => ⟨isContent_of_jsxChild h, trivial⟩) h trivial

@[grind .]
theorem lays_jsxChildren : Lays id (jsxChildren g) := lays_jsxChild.manyUntil stays_seesClosingTag.advances

@[grind →]
theorem reads_fragment (h : Runs (fragment g start betweenTags) context c node c') (hc : c.On source) :
    Grows source start [] c node c' := by
  unfold fragment at h
  grind

@[grind .]
theorem stays_endsTag : Stays endsTag := by
  intro _ _ _ _ h
  unfold endsTag at h
  grind

@[grind .]
theorem lays_tagParts : Lays id (tagParts g) := by
  intro _ _ _ _ _ h hc
  unfold tagParts at h
  grind

omit [g.Sound] in
@[grind →]
theorem tagItems_of_tagParts (h : Runs (tagParts g) context c nodes c') : TagItems nodes := by
  have ha : ∀ {nodes c c'}, Runs (manyUntil endsTag (jsxAttribute g)) context c nodes c' → TagItems nodes := fun h =>
    forall_manyUntil _ (fun _ => True) (fun _ _ => trivial) (fun _ h => ⟨isTagItem_of_jsxAttribute h, trivial⟩) h trivial
  unfold tagParts typeArguments at h
  grind [TagItems, shape, Shape.isTagItem]

@[grind →]
theorem shape_of_closingTag {name : Node} (h : Runs (closingTag name betweenTags) context c node c') :
    node.shape = .jsxClosing := by
  unfold closingTag at h
  grind [shape]

@[grind .]
theorem lays_closingTag (name : Node) (betweenTags : Bool) : LaysNode (closingTag name betweenTags) := by
  intro _ _ _ _ _ h hc
  unfold closingTag at h
  grind

@[grind →]
theorem reads_element (h : Runs (element g start betweenTags) context c node c') (hc : c.On source) :
    Grows source start [] c node c' := by
  unfold element at h
  grind [Shape.isContent]

omit [g.Sound] in
theorem isMarkup_of_markup (h : Runs (markup g betweenTags) context c node c') : node.shape.isMarkup := by
  unfold markup fragment element at h
  grind [shape, Shape.isMarkup]

theorem lays_markup (betweenTags : Bool) : LaysNode (markup g betweenTags) := by
  intro _ _ _ _ _ h hc
  unfold markup at h
  grind

end Polyview.Script
