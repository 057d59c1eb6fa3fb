import Polyview.Proofs.Template.Recursion

/-! # What holds of rendering

Many facts about rendering are proved alike: they hold of a step that does nothing, and of one step after the other if
they hold of both. A `Judgement` is such a fact about two renderings of the same thing, with a set of marks that they
leave. If it holds of the methods of two renderers, it holds of rendering a template with them, and the marks are those
of the nodes that rendering reaches (`renderTemplate_judged`).

The simplest judgement is equality. From it follows that the bound on the depth is never met, so rendering satisfies the
equation of the recursion that it stands for (`renderTemplate_eq`). -/

namespace Polyview

open List

/-! ### Judgements -/

/-- What can be said of two renderings of the same thing, with the marks that they leave. -/
structure Judgement (σ τ ι : Type) where
  Holds {α : Type} : (ι → Prop) → Rendering σ α → Rendering τ α → Prop
  pure {α : Type} (value : α) : Holds (fun _ => False) (Pure.pure value) (Pure.pure value)
  /-- One step after the other leaves the marks of both. -/
  bind {α β : Type} {p q : ι → Prop} {x : Rendering σ α} {y : Rendering τ α} {f : α → Rendering σ β}
    {g : α → Rendering τ β} : Holds p x y → (∀ value, Holds q (f value) (g value)) →
    Holds (fun mark => p mark ∨ q mark) (x >>= f) (y >>= g)

namespace Judgement

variable {σ τ ι α β : Type} {J : Judgement σ τ ι} {p q : ι → Prop} {x : Rendering σ α} {y : Rendering τ α}
  {f : α → Rendering σ β} {g : α → Rendering τ β}

/-- The judgement holds, and no marks are left. -/
abbrev Quiet (J : Judgement σ τ ι) (x : Rendering σ α) (y : Rendering τ α) : Prop := J.Holds (fun _ => False) x y

theorem Holds.congr (h : J.Holds p x y) (hi : ∀ mark, p mark ↔ q mark) : J.Holds q x y := by
  rwa [show q = p from funext fun mark => propext (hi mark).symm]

theorem Holds.after (h : J.Quiet x y) (hf : ∀ value, J.Holds q (f value) (g value)) : J.Holds q (x >>= f) (y >>= g) :=
  (J.bind h hf).congr fun _ => iff_of_eq (false_or _)

theorem Holds.before (h : J.Holds p x y) (hf : ∀ value, J.Quiet (f value) (g value)) : J.Holds p (x >>= f) (y >>= g) :=
  (J.bind h hf).congr fun _ => iff_of_eq (or_false _)

theorem Holds.map (h : J.Holds p x y) (f : α → β) : J.Holds p (f <$> x) (f <$> y) := by
  rw [map_eq_pure_bind, map_eq_pure_bind]
  exact h.before fun value => J.pure (f value)

theorem Holds.mapM {items : List α} {p : α → ι → Prop} (h : ∀ item ∈ items, J.Holds (p item) (f item) (g item)) :
    J.Holds (fun mark => ∃ item ∈ items, p item mark) (items.mapM f) (items.mapM g) := by
  induction items with
  | nil => exact (J.pure []).congr (by simp)
  | cons item rest ih =>
    rw [mapM_cons, mapM_cons]
    have hr := ih fun other ho => h other (.tail _ ho)
    have hi := J.bind (h item (.head _)) fun value => hr.before fun others => J.pure (value :: others)
    exact hi.congr (by simp)

/-- The judgement holds of the methods of two renderers; only the calls for attributes leave marks. -/
structure Treats (J : Judgement σ τ ι) (own : AttributeCall → ι → Prop) (r : Renderer σ) (r' : Renderer τ) : Prop where
  merges : r'.mergesStaticClass = r.mergesStaticClass
  script : ∀ code, J.Quiet (r.script code) (r'.script code)
  element : ∀ tag attributes children, J.Quiet (r.element tag attributes children) (r'.element tag attributes children)
  selfClosing : ∀ tag attributes, J.Quiet (r.selfClosing tag attributes) (r'.selfClosing tag attributes)
  fragment : ∀ children, J.Quiet (r.fragment children) (r'.fragment children)
  text : ∀ value, J.Quiet (r.text value) (r'.text value)
  expression : ∀ code, J.Quiet (r.expression code) (r'.expression code)
  slot : ∀ parts, J.Quiet (r.slot parts) (r'.slot parts)
  showIf : ∀ parts, J.Quiet (r.showIf parts) (r'.showIf parts)
  forEach : ∀ parts, J.Quiet (r.forEach parts) (r'.forEach parts)
  attr : ∀ tag name value, J.Holds (own (.attr tag name)) (r.attr tag name value) (r'.attr tag name value)
  reference : ∀ tag member, J.Holds (own (.reference tag member)) (r.reference tag member) (r'.reference tag member)
  classMap : ∀ tag name entries code, J.Holds (own (.classMap tag name)) (r.classMap tag name entries code)
    (r'.classMap tag name entries code)
  styleMap : ∀ tag entries code, J.Holds (own (.styleMap tag)) (r.styleMap tag entries code)
    (r'.styleMap tag entries code)

end Judgement

/-! ### Shapes -/

section

variable {σ τ ι : Type} {J : Judgement σ τ ι} {own : AttributeCall → ι → Prop} {r : Renderer σ} {r' : Renderer τ}
  {render : Template → Rendering σ String} {render' : Template → Rendering τ String}
  {M : Template → ι → Prop}

theorem renderEntries_judged (hr : J.Treats own r r') (entries : List MapEntry) :
    J.Quiet (renderEntries r entries) (renderEntries r' entries) := by
  have he := Judgement.Holds.mapM fun entry (_ : entry ∈ entries) =>
    (hr.script entry.value).before fun value => J.pure (MapEntry.mk entry.key value)
  exact he.congr (by simp)

theorem renderValue_judged (hr : J.Treats own r r') {value : AttributeValue}
    (h : ∀ node, value.markup? = some node → J.Holds (M node) (render node) (render' node)) :
    J.Holds (fun mark => ∃ node, value.markup? = some node ∧ M node mark) (renderValue r render value)
      (renderValue r' render' value) := by
  cases value with
  | boolean => exact (J.pure _).congr (by simp [AttributeValue.markup?])
  | static text => exact (J.pure _).congr (by simp [AttributeValue.markup?])
  | expression code => exact ((hr.script code).map _).congr (by simp [AttributeValue.markup?])
  | objectMap entries code => exact ((hr.script code).map _).congr (by simp [AttributeValue.markup?])
  | template node => exact ((h node rfl).map _).congr (by simp [AttributeValue.markup?])

/-- An attribute is written by one call, which comes after those for its markup. -/
theorem renderAttribute_judged (hr : J.Treats own r r') (tag : String) (static : List MapEntry) {a : Attribute}
    (h : ∀ node, a.value.markup? = some node → J.Holds (M node) (render node) (render' node)) :
    J.Holds (fun mark => (∃ node, a.value.markup? = some node ∧ M node mark) ∨ own (a.call tag) mark)
      (renderAttribute r render tag static a) (renderAttribute r' render' tag static a) := by
  have hc (hm : a.value.markup? = none) (mark : ι) : own (a.call tag) mark ↔
      (∃ node, a.value.markup? = some node ∧ M node mark) ∨ own (a.call tag) mark := by
    simp [hm]
  unfold renderAttribute
  cases hs : attributeShape a with
  | ref member =>
    refine Judgement.Holds.congr ?_ (hc (markup?_of_attributeShape (by simp [hs])))
    rw [Attribute.call, hs]
    exact hr.reference ..
  | classMap name entries code =>
    refine Judgement.Holds.congr ?_ (hc (markup?_of_attributeShape (by simp [hs])))
    rw [Attribute.call, hs]
    exact (renderEntries_judged hr entries).after fun _ => (hr.script code).after fun _ => hr.classMap ..
  | styleMap entries code =>
    refine Judgement.Holds.congr ?_ (hc (markup?_of_attributeShape (by simp [hs])))
    rw [Attribute.call, hs]
    exact (renderEntries_judged hr entries).after fun _ => (hr.script code).after fun _ => hr.styleMap ..
  | plain name value =>
    obtain rfl := value_of_attributeShape hs
    rw [Attribute.call, hs]
    exact J.bind (renderValue_judged hr h) fun _ => hr.attr ..

theorem renderAttributes_eq (r : Renderer σ) (render : Template → Rendering σ String) (tag : String)
    (attributes : List Attribute) :
    renderAttributes r render tag attributes = (writtenAttributes r.mergesStaticClass attributes).mapM
      (renderAttribute r render tag (mergedEntries r.mergesStaticClass attributes)) := by
  unfold renderAttributes writtenAttributes mergedEntries
  split <;> rfl

theorem renderAttributes_judged (hr : J.Treats own r r') (tag : String) {attributes : List Attribute}
    (h : ∀ a ∈ attributes, ∀ node, a.value.markup? = some node → J.Holds (M node) (render node) (render' node)) :
    J.Holds (fun mark => (∃ call ∈ (writtenAttributes r.mergesStaticClass attributes).map (Attribute.call tag),
        own call mark) ∨ ∃ node ∈ attributes.filterMap fun a => a.value.markup?, M node mark)
      (renderAttributes r render tag attributes) (renderAttributes r' render' tag attributes) := by
  rw [renderAttributes_eq, renderAttributes_eq, hr.merges]
  have hw := Judgement.Holds.mapM fun a (ha : a ∈ writtenAttributes r.mergesStaticClass attributes) =>
    renderAttribute_judged hr tag (mergedEntries r.mergesStaticClass attributes)
      (h a (mem_of_mem_writtenAttributes ha))
  refine hw.congr fun mark => ?_
  constructor
  · rintro ⟨a, ha, ⟨node, hn, hm⟩ | hm⟩
    · exact .inr ⟨node, mem_filterMap.mpr ⟨a, mem_of_mem_writtenAttributes ha, hn⟩, hm⟩
    · exact .inl ⟨_, mem_map_of_mem ha, hm⟩
  · rintro (⟨call, hc, hm⟩ | ⟨node, hn, hm⟩)
    · obtain ⟨a, ha, rfl⟩ := mem_map.mp hc
      exact ⟨a, ha, .inr hm⟩
    · obtain ⟨a, ha, hn⟩ := mem_filterMap.mp hn
      exact ⟨a, mem_writtenAttributes ha (staticClass?_of_markup? hn), .inl ⟨node, hn, hm⟩⟩

theorem renderFallback_judged (hr : J.Treats own r r') {fallback : Option AttributeValue}
    (h : ∀ node, fallback.bind AttributeValue.markup? = some node → J.Holds (M node) (render node) (render' node)) :
    J.Holds (fun mark => ∃ node ∈ (fallback.bind AttributeValue.markup?).toList, M node mark)
      (renderFallback r render fallback) (renderFallback r' render' fallback) := by
  rcases fallback with _ | value
  · exact (J.pure _).congr (by simp)
  · cases value with
    | boolean => exact (J.pure _).congr (by simp [AttributeValue.markup?])
    | static text => exact ((hr.text text).map _).congr (by simp [AttributeValue.markup?])
    | expression code =>
      exact ((hr.script code).after fun _ => (hr.expression _).map _).congr (by simp [AttributeValue.markup?])
    | objectMap entries code =>
      exact ((hr.script code).after fun _ => (hr.expression _).map _).congr (by simp [AttributeValue.markup?])
    | template node => exact ((h node rfl).map _).congr (by simp [AttributeValue.markup?])

theorem renderKey_judged (hr : J.Treats own r r') (key : Option String) :
    J.Quiet (key.mapM r.script) (key.mapM r'.script) := by
  rcases key with _ | code
  · exact J.pure none
  · exact (hr.script code).map some

/-- Rendering a shape leaves the marks of the calls for its attributes and those of its nodes. -/
theorem renderShape_judged (hr : J.Treats own r r') {shape : NodeShape}
    (h : ∀ node ∈ shape.nodes, J.Holds (M node) (render node) (render' node)) :
    J.Holds (fun mark => (∃ call ∈ shape.calls r.mergesStaticClass, own call mark) ∨ ∃ node ∈ shape.nodes, M node mark)
      (renderShape r render shape) (renderShape r' render' shape) := by
  cases shape with
  | slot name children =>
    rw [NodeShape.nodes] at h ⊢
    refine Judgement.Holds.congr (p := fun mark => ∃ node ∈ children, M node mark) ?_ (by simp [NodeShape.calls])
    exact (Judgement.Holds.mapM h).before fun fallback => hr.slot _
  | conditional condition fallback children =>
    rw [NodeShape.nodes] at h ⊢
    obtain ⟨hc, hfb⟩ := forall_mem_append.mp h
    have hfb := renderFallback_judged hr fun node hn => hfb node (Option.mem_toList.mpr hn)
    have hs := (hr.script condition).after fun condition => J.bind (.mapM hc) fun body =>
      hfb.before fun fallback => hr.showIf ⟨condition, body, fallback⟩
    exact hs.congr (by simp [NodeShape.calls, or_and_right, exists_or])
  | each list key item index body =>
    have he := (hr.script list).after fun list => (renderKey_judged hr key).after fun key =>
      (h body (.head _)).before fun body => hr.forEach ⟨list, item, index, key, body⟩
    exact he.congr (by simp [NodeShape.calls, NodeShape.nodes])
  | element tag attributes children =>
    rw [NodeShape.nodes] at h ⊢
    obtain ⟨hm, hc⟩ := forall_mem_append.mp h
    have hat := renderAttributes_judged hr tag fun a ha node hn => hm node (mem_filterMap.mpr ⟨a, ha, hn⟩)
    have hel := J.bind hat fun attributes => (Judgement.Holds.mapM hc).before fun children =>
      hr.element tag attributes children
    exact hel.congr (by simp [NodeShape.calls, or_and_right, exists_or, or_assoc])
  | selfClosing tag attributes =>
    have hat := renderAttributes_judged hr tag fun a ha node hn => h node (mem_filterMap.mpr ⟨a, ha, hn⟩)
    exact hat.before fun attributes => hr.selfClosing tag attributes
  | fragment children =>
    rw [NodeShape.nodes] at h ⊢
    have hf := (Judgement.Holds.mapM h).before fun children => hr.fragment children
    exact hf.congr (by simp [NodeShape.calls])
  | text value => exact (hr.text value).congr (by simp [NodeShape.calls, NodeShape.nodes])
  | expression code =>
    have hex := (hr.script code).after fun code => hr.expression code
    exact hex.congr (by simp [NodeShape.calls, NodeShape.nodes])

end

/-! ### The equation of the recursion -/

section

variable {σ : Type} {r : Renderer σ} {node : Template} {shape : NodeShape}
  {render render' : Template → Rendering σ String}

/-- That two renderings are the same. -/
def Judgement.same (σ : Type) : Judgement σ σ Unit where
  Holds _ x y := x = y
  pure _ := rfl
  bind h hf := by rw [h, funext hf]

theorem Judgement.same_treats (r : Renderer σ) : (Judgement.same σ).Treats (fun _ _ => False) r r := by
  constructor <;> intros <;> rfl

/-- Rendering a shape renders no other nodes than those of the shape. -/
theorem renderShape_congr (h : ∀ node ∈ shape.nodes, render node = render' node) :
    renderShape r render shape = renderShape r render' shape :=
  renderShape_judged (M := fun _ _ => False) (Judgement.same_treats r) h

/-- A bound on the depth that is at least the number of nodes is as good as any other. -/
theorem renderWithin_eq {fuel fuel' : ℕ} (h : node.size ≤ fuel) (h' : node.size ≤ fuel') :
    renderWithin r fuel node = renderWithin r fuel' node := by
  induction fuel generalizing fuel' node with
  | zero =>
    have := size_children_lt node
    omega
  | succ fuel ih =>
    cases fuel' with
    | zero =>
      have := size_children_lt node
      omega
    | succ fuel' =>
      rw [renderWithin, renderWithin]
      split
      · next shape hs =>
        refine renderShape_congr fun inner hi => ?_
        have := size_lt_of_mem_next (nodes_of_shapeOf hs ▸ hi)
        exact ih (by omega) (by omega)
      · rfl

/-- One step of the recursion: a node by its shape, where `render` renders the nodes below it. -/
def renderNode (r : Renderer σ) (render : Template → Rendering σ String) (node : Template) : Rendering σ String :=
  match shapeOf node with
  | .ok shape => renderShape r render shape
  | .error error => throw error

/-- **The recursion:** a node is rendered by its shape, and all nodes below it in the same way. -/
theorem renderTemplate_eq (r : Renderer σ) (node : Template) :
    renderTemplate r node = renderNode r (renderTemplate r) node := by
  have hsi := size_children_lt node
  obtain ⟨fuel, hf⟩ : ∃ fuel, node.size = fuel + 1 := ⟨node.size - 1, by omega⟩
  rw [renderTemplate, hf, renderWithin, renderNode]
  cases hs : shapeOf node with
  | error error => rfl
  | ok shape =>
    refine renderShape_congr fun inner hi => ?_
    have := size_lt_of_mem_next (nodes_of_shapeOf hs ▸ hi)
    exact renderWithin_eq (by omega) (Nat.le_refl _)

end

/-! ### Templates -/

/-- **What holds of rendering:** a judgement on the methods of two renderers holds of rendering a template with them,
with the marks of the nodes that rendering reaches. -/
theorem renderTemplate_judged {σ τ ι : Type} {J : Judgement σ τ ι} {own : AttributeCall → ι → Prop} {r : Renderer σ}
    {r' : Renderer τ} {M : Template → ι → Prop} (hr : J.Treats own r r')
    (he : ∀ node error, shapeOf node = .error error →
      J.Holds (α := String) (fun mark => ∃ inner, node.Reaches inner ∧ M inner mark) (throw error) (throw error))
    (hsh : ∀ node shape, shapeOf node = .ok shape → ∀ mark,
      M node mark ↔ ∃ call ∈ node.calls r.mergesStaticClass, own call mark) (node : Template) :
    J.Holds (fun mark => ∃ inner, node.Reaches inner ∧ M inner mark) (renderTemplate r node)
      (renderTemplate r' node) := by
  induction hs : node.size using Nat.strongRecOn generalizing node with
  | ind size ih =>
    subst hs
    rw [renderTemplate_eq, renderTemplate_eq, renderNode, renderNode]
    cases hn : shapeOf node with
    | error error => exact he node error hn
    | ok shape =>
      have hb : ∀ inner ∈ shape.nodes, J.Holds (fun mark => ∃ deeper, inner.Reaches deeper ∧ M deeper mark)
          (renderTemplate r inner) (renderTemplate r' inner) := by
        intro inner hi
        rw [nodes_of_shapeOf hn] at hi
        exact ih inner.size (size_lt_of_mem_next hi) inner rfl
      refine (renderShape_judged hr hb).congr fun mark => ?_
      rw [exists_reaches_iff, nodes_of_shapeOf hn, calls_of_shapeOf hn, hsh node shape hn]

end Polyview
