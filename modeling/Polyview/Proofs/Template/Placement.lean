import Polyview.Proofs.Pipeline.Outcome
import Polyview.Proofs.Template.Calls

/-! # Where nodes stand in markup

Every node that rendering reaches is written into the markup of the template. What a renderer writes around the nodes
is said by `Renderer.Writes`: tags and signs stand around children, bodies and fallbacks. From it, one step
(`exists_place`) puts a node into the text of the node above it, and `Template.Reaches.placed` puts it into the markup
of the template, together with what may stand behind it: nothing, markup, or the text of a text node. -/

namespace Polyview

open List Text

variable {attributes : List Attribute} {children : List Template} {closed : Prop} {α β : Type} {items : List α}
  {parts : List String} {tag : String} {values : List β}

/-- How a renderer writes what stands between tags. -/
structure Frame where
  /-- What markup starts with. -/
  signs : List String
  /-- Text as it is written. -/
  text : String → String
  /-- Whether fragments are written with tags. -/
  tagged : Bool

/-! ### Behind a node -/

namespace Frame

variable (f : Frame) (texts : String → Prop)

/-- Markup starts here. -/
def Opens (rest : List Char) : Prop := ∃ sign ∈ f.signs, sign.toList <+: rest

/-- A text stands inside of another one, in front of markup. -/
def Encloses (inner outer : String) : Prop :=
  ∃ before rest, outer.toList = before ++ inner.toList ++ rest ∧ f.Opens rest

/-- What may stand behind a node: nothing or markup, and some of the given texts in front of it. -/
inductive Behind : List Char → Prop
  | nil : Behind []
  | markup {rest : List Char} (h : f.Opens rest) : Behind rest
  | text {value : String} {rest : List Char} (h : texts value) (hrest : Behind rest) :
      Behind ((f.text value).toList ++ rest)

/-- Text that may stand behind a node if what follows it may. -/
def Leads (part : List Char) : Prop := ∀ rest, f.Behind texts rest → f.Behind texts (part ++ rest)

/-- Text that may stand behind a node whatever follows it. -/
def Shuts (part : List Char) : Prop := ∀ rest, f.Behind texts (part ++ rest)

/-- A piece stands in a text, in front of what may stand behind a node; if the text is `closed`, whatever follows the
text. -/
def Placed (closed : Prop) (piece text : List Char) : Prop :=
  ∃ before rest, text = before ++ piece ++ rest ∧ f.Leads texts rest ∧ (closed → f.Shuts texts rest)

variable {f} {texts} {rest more part : List Char} {inner outer : String}

theorem Opens.append (h : f.Opens rest) (more : List Char) : f.Opens (rest ++ more) := by
  obtain ⟨sign, hs, hp⟩ := h
  exact ⟨sign, hs, hp.trans (prefix_append rest more)⟩

theorem Opens.shuts (h : f.Opens part) : f.Shuts texts part := fun rest => .markup (h.append rest)

theorem Shuts.leads (h : f.Shuts texts part) : f.Leads texts part := fun rest _ => h rest

theorem Leads.append (h : f.Leads texts part) (hm : f.Leads texts more) : f.Leads texts (part ++ more) := by
  intro rest hr
  rw [append_assoc]
  exact h _ (hm _ hr)

theorem Leads.append_shuts (h : f.Leads texts part) (hm : f.Shuts texts more) : f.Shuts texts (part ++ more) := by
  intro rest
  rw [append_assoc]
  exact h _ (hm rest)

theorem Shuts.append (h : f.Shuts texts part) (more : List Char) : f.Shuts texts (part ++ more) := by
  intro rest
  rw [append_assoc]
  exact h _

theorem leads_nil : f.Leads texts [] := fun _ h => h

theorem leads_text {value : String} (h : texts value) : f.Leads texts (f.text value).toList := fun _ hr => .text h hr

theorem leads_join (h : ∀ part ∈ parts, f.Leads texts part.toList) : f.Leads texts (String.join parts).toList := by
  rw [String.toList_join]
  induction parts with
  | nil => exact leads_nil
  | cons part parts ih =>
    rw [flatMap_cons]
    exact (h part (.head _)).append (ih fun other ho => h other (.tail _ ho))

theorem Encloses.isInfix (h : f.Encloses inner outer) : inner.toList <:+: outer.toList := by
  obtain ⟨before, rest, heq, -⟩ := h
  exact ⟨before, rest, heq.symm⟩

theorem Encloses.placed (h : f.Encloses inner outer) : f.Placed texts closed inner.toList outer.toList := by
  obtain ⟨before, rest, heq, ho⟩ := h
  exact ⟨before, rest, heq, ho.shuts.leads, fun _ => ho.shuts⟩

theorem Encloses.of_isInfix {whole : String} (h : f.Encloses inner outer) (hw : outer.toList <:+: whole.toList) :
    f.Encloses inner whole := by
  obtain ⟨before, rest, heq, ho⟩ := h
  obtain ⟨before', more, heq'⟩ := hw
  exact ⟨before' ++ before, rest ++ more, by rw [← heq', heq]; simp, ho.append more⟩

theorem Placed.isInfix {piece text : List Char} (h : f.Placed texts closed piece text) : piece <:+: text := by
  obtain ⟨before, rest, heq, -⟩ := h
  exact ⟨before, rest, heq.symm⟩

/-- What is placed among the nodes that are enclosed is placed in what encloses them. -/
theorem Encloses.placed_trans (h : f.Encloses inner outer) (hp : f.Placed texts False part inner.toList) :
    f.Placed texts closed part outer.toList := by
  obtain ⟨before, rest, heq, ho⟩ := h
  obtain ⟨before', more, heq', hl, -⟩ := hp
  refine ⟨before ++ before', more ++ rest, by rw [heq, heq']; simp, hl.append ho.shuts.leads, fun _ => ?_⟩
  exact hl.append_shuts ho.shuts

end Frame

/-! ### Renderers -/

/-- **A renderer writes in a frame:** all it writes but text starts with markup, and markup stands behind the children,
the bodies and the fallbacks that it writes. Where fragments have no tags, the markup in attributes is enclosed. -/
structure Renderer.Writes {σ : Type} (r : Renderer σ) (f : Frame) : Prop where
  text {value out : String} : Yields (r.text value) out → out = f.text value
  expression {code out : String} : Yields (r.expression code) out → f.Opens out.toList
  element {tag out : String} {attributes children : List String} : Yields (r.element tag attributes children) out →
    f.Opens out.toList ∧ f.Encloses (String.join children) out ∧ ∀ a ∈ attributes, a.toList <:+: out.toList
  selfClosing {tag out : String} {attributes : List String} : Yields (r.selfClosing tag attributes) out →
    f.Opens out.toList ∧ ∀ a ∈ attributes, a.toList <:+: out.toList
  fragment {out : String} {children : List String} : Yields (r.fragment children) out →
    f.tagged = true ∧ f.Opens out.toList ∧ f.Encloses (String.join children) out ∨
      f.tagged = false ∧ out = String.join children
  slot {parts : SlotParts} {out : String} : Yields (r.slot parts) out →
    f.Opens out.toList ∧ (parts.fallback ≠ [] → f.Encloses (String.join parts.fallback) out)
  conditional {parts : ShowParts} {out : String} : Yields (r.showIf parts) out →
    f.Opens out.toList ∧ f.Encloses (String.join parts.body) out ∧
      ∀ text, parts.fallback = some text → f.Encloses text out
  repetition {parts : EachParts} {out : String} : Yields (r.forEach parts) out →
    f.Opens out.toList ∧ f.Encloses parts.body out
  value {tag name markup out : String} : Yields (r.attr tag name (.template markup)) out →
    markup.toList <:+: out.toList ∧ (f.tagged = false → f.Encloses markup out)

theorem exists_of_mem_left {rel : α → β → Prop} {item : α} (h : List.Forall₂ rel items values) (hm : item ∈ items) :
    ∃ value ∈ values, rel item value := by
  induction h with
  | nil => cases hm
  | @cons first value rest values hf _ ih =>
    rcases mem_cons.mp hm with rfl | hm
    · exact ⟨value, .head _, hf⟩
    · obtain ⟨found, hfd, hr⟩ := ih hm
      exact ⟨found, .tail _ hfd, hr⟩

theorem exists_of_mem_right {rel : α → β → Prop} {value : β} (h : List.Forall₂ rel items values)
    (hm : value ∈ values) : ∃ item ∈ items, rel item value :=
  exists_of_mem_left h.flip hm

section

variable {σ : Type} {r : Renderer σ} {f : Frame} {texts : String → Prop} {node inner : Template} {out : String}
  {shape : NodeShape}

theorem Yields.exists_of_bind {x : Rendering σ α} {k : α → Rendering σ β} {value : β} (h : Yields (x >>= k) value) :
    ∃ first, Yields x first ∧ Yields (k first) value := by
  obtain ⟨state, after, hr⟩ := h
  obtain ⟨first, middle, hf, hr⟩ := run_bind_eq_ok hr
  exact ⟨first, ⟨_, _, hf⟩, _, _, hr⟩

theorem Yields.forall₂ {k : α → Rendering σ β} (h : Yields (items.mapM k) values) :
    List.Forall₂ (fun item value => Yields (k item) value) items values := by
  obtain ⟨state, after, hr⟩ := h
  exact forall₂_of_run_mapM hr

theorem yields_pure {x value : α} (h : Yields (pure x : Rendering σ α) value) : value = x := by
  obtain ⟨state, after, hr⟩ := h
  cases hr
  rfl

abbrev RendersNodes (r : Renderer σ) (nodes : List Template) (parts : List String) : Prop :=
  List.Forall₂ (fun node part => Yields (renderTemplate r node) part) nodes parts

/-- The texts of the attributes of an element. -/
abbrev RendersAttributes (r : Renderer σ) (tag : String) (attributes : List Attribute) (parts : List String) : Prop :=
  List.Forall₂ (fun a part => Yields (renderAttribute r (renderTemplate r) tag
    (mergedEntries r.mergesStaticClass attributes) a) part) (writtenAttributes r.mergesStaticClass attributes) parts

theorem yields_element (h : Yields (renderShape r (renderTemplate r) (.element tag attributes children)) out) :
    ∃ parts inner, RendersAttributes r tag attributes parts ∧ RendersNodes r children inner ∧
      Yields (r.element tag parts inner) out := by
  obtain ⟨parts, hp, h⟩ := h.exists_of_bind
  obtain ⟨inner, hi, h⟩ := h.exists_of_bind
  rw [renderAttributes_eq] at hp
  exact ⟨parts, inner, hp.forall₂, hi.forall₂, h⟩

theorem yields_selfClosing (h : Yields (renderShape r (renderTemplate r) (.selfClosing tag attributes)) out) :
    ∃ parts, RendersAttributes r tag attributes parts ∧ Yields (r.selfClosing tag parts) out := by
  obtain ⟨parts, hp, h⟩ := h.exists_of_bind
  rw [renderAttributes_eq] at hp
  exact ⟨parts, hp.forall₂, h⟩

theorem yields_slot {name : Option String} (h : Yields (renderShape r (renderTemplate r) (.slot name children)) out) :
    ∃ parts, RendersNodes r children parts.fallback ∧ parts.name = name ∧
      (∀ text, name = some text → parts.prop = camelCase text) ∧ Yields (r.slot parts) out := by
  obtain ⟨inner, hi, h⟩ := h.exists_of_bind
  refine ⟨_, hi.forall₂, rfl, ?_, h⟩
  rintro text rfl
  rfl

theorem yields_conditional {condition : String} {fallback : Option AttributeValue}
    (h : Yields (renderShape r (renderTemplate r) (.conditional condition fallback children)) out) :
    ∃ parts, RendersNodes r children parts.body ∧ Yields (renderFallback r (renderTemplate r) fallback) parts.fallback ∧
      Yields (r.showIf parts) out := by
  obtain ⟨test, -, h⟩ := h.exists_of_bind
  obtain ⟨body, hb, h⟩ := h.exists_of_bind
  obtain ⟨hidden, hh, h⟩ := h.exists_of_bind
  exact ⟨_, hb.forall₂, hh, h⟩

theorem yields_each {list item : String} {key index : Option String} {body : Template}
    (h : Yields (renderShape r (renderTemplate r) (.each list key item index body)) out) :
    ∃ parts, Yields (renderTemplate r body) parts.body ∧ Yields (key.mapM r.script) parts.key ∧
      Yields (r.forEach parts) out := by
  obtain ⟨_, -, h⟩ := h.exists_of_bind
  obtain ⟨code, hc, h⟩ := h.exists_of_bind
  obtain ⟨text, ht, h⟩ := h.exists_of_bind
  exact ⟨⟨_, item, index, code, text⟩, ht, hc, h⟩

/-! ### Plain shapes -/

/-- The node that a shape stands for, unless it is the shape of a control form. -/
def NodeShape.plain? : NodeShape → Option Template
  | .element tag attributes children => some (.element tag attributes children)
  | .selfClosing tag attributes => some (.selfClosing tag attributes)
  | .fragment children => some (.fragment children)
  | .text value => some (.text value)
  | .expression code => some (.expression code)
  | _ => none

theorem eq_of_shapeOf {plain : Template} (h : shapeOf node = .ok shape) (hp : shape.plain? = some plain) :
    node = plain ∧ node.IsPlain := by
  rcases node.form with ht | ht | ht | hf
  · rw [shapeOf_slot ht] at h
    unfold slotShape at h
    split at h <;> cases h <;> cases hp
  · rw [shapeOf_show ht] at h
    unfold showShape at h
    split at h <;> cases h
    cases hp
  · rw [shapeOf_for ht] at h
    obtain ⟨list, params, body, item, rest, -, -, -, -, rfl⟩ := eachShape_eq_ok h
    cases hp
  · rw [shapeOf_plain hf] at h
    refine ⟨?_, hf⟩
    cases node <;> cases h <;> exact Option.some.inj hp

/-! ### What stands behind nodes -/

/-- The text of a node may stand behind another node. -/
theorem Renderer.Writes.leads (hr : r.Writes f) (h : Yields (renderTemplate r node) out)
    (ht : ∀ value, node.Reaches (.text value) → texts value) : f.Leads texts out.toList := by
  induction hs : node.size using Nat.strongRecOn generalizing node out with
  | ind size ih =>
  obtain ⟨shape, hsh, hy⟩ := h.exists_shape
  have hnd := nodes_of_shapeOf hsh
  cases shape with
  | element tag attributes children =>
    obtain ⟨parts, inner, -, -, hy⟩ := yields_element hy
    exact (hr.element hy).1.shuts.leads
  | selfClosing tag attributes =>
    obtain ⟨parts, -, hy⟩ := yields_selfClosing hy
    exact (hr.selfClosing hy).1.shuts.leads
  | fragment children =>
    obtain ⟨parts, hpt, hy⟩ := hy.exists_of_bind
    rcases hr.fragment hy with ⟨-, ho, -⟩ | ⟨-, rfl⟩
    · exact ho.shuts.leads
    · refine Frame.leads_join fun part hp => ?_
      obtain ⟨child, hc, hy⟩ := exists_of_mem_right hpt.forall₂ hp
      have hn : child ∈ node.next := hnd ▸ hc
      have hl := size_lt_of_mem_next hn
      exact ih child.size (hs ▸ hl) hy (fun value hv => ht value (.head hn hv)) rfl
  | text value =>
    obtain rfl := hr.text hy
    obtain ⟨rfl, -⟩ := eq_of_shapeOf hsh rfl
    exact Frame.leads_text (ht value .refl)
  | expression code =>
    obtain ⟨_, -, hy⟩ := hy.exists_of_bind
    exact (hr.expression hy).shuts.leads
  | slot name children =>
    obtain ⟨parts, -, -, -, hy⟩ := yields_slot hy
    exact (hr.slot hy).1.shuts.leads
  | conditional condition fallback children =>
    obtain ⟨parts, -, -, hy⟩ := yields_conditional hy
    exact (hr.conditional hy).1.shuts.leads
  | each list key item index body =>
    obtain ⟨parts, -, -, hy⟩ := yields_each hy
    exact (hr.repetition hy).1.shuts.leads

/-- Among the texts of nodes, each stands in front of what may stand behind a node. -/
theorem exists_placed_of_mem {nodes : List Template} (hr : r.Writes f) (h : RendersNodes r nodes parts)
    (hi : inner ∈ nodes) (ht : ∀ child ∈ nodes, ∀ value, child.Reaches (.text value) → texts value) :
    ∃ part, Yields (renderTemplate r inner) part ∧ f.Placed texts False part.toList (String.join parts).toList := by
  induction h with
  | nil => cases hi
  | @cons first part rest parts hf hre ih =>
    rw [String.toList_join, flatMap_cons, ← String.toList_join]
    rcases mem_cons.mp hi with rfl | hi
    · refine ⟨part, hf, [], (String.join parts).toList, rfl, Frame.leads_join fun other ho => ?_, False.elim⟩
      obtain ⟨child, hc, hy⟩ := exists_of_mem_right hre ho
      exact hr.leads hy (ht child (.tail _ hc))
    · obtain ⟨found, hy, before, behind, heq, hp⟩ := ih hi fun child hc => ht child (.tail _ hc)
      exact ⟨found, hy, part.toList ++ before, behind, by rw [heq]; simp, hp⟩

/-! ### Nodes in the nodes above them -/

theorem exists_of_markup {static : List MapEntry} {a : Attribute} {text : String} (hr : r.Writes f)
    (h : Yields (renderAttribute r (renderTemplate r) tag static a) text) (hm : a.value.markup? = some inner) :
    ∃ part, Yields (renderTemplate r inner) part ∧ part.toList <:+: text.toList ∧
      (f.tagged = false → f.Encloses part text) := by
  rcases a with ⟨name, value⟩
  cases value with
  | template markup =>
    cases hm
    obtain ⟨rendered, ⟨state, after, hru⟩, h⟩ := h.exists_of_bind
    obtain ⟨part, hp, rfl⟩ := run_map_eq_ok hru
    exact ⟨part, ⟨_, _, hp⟩, hr.value h⟩
  | _ => cases hm

theorem Yields.exists_of_fallback {value : AttributeValue} {fallback : Option String}
    (h : Yields (renderFallback r (renderTemplate r) (some value)) fallback) (hm : value.markup? = some inner) :
    ∃ text, Yields (renderTemplate r inner) text ∧ fallback = some text := by
  obtain ⟨state, after, hr⟩ := h
  cases value with
  | template node =>
    cases hm
    obtain ⟨text, ht, rfl⟩ := run_map_eq_ok hr
    exact ⟨text, ⟨_, _, ht⟩, rfl⟩
  | _ => cases hm

/-- Nodes that are written inside of an enclosed text. -/
theorem exists_place_of_encloses {nodes : List Template} (hr : r.Writes f) (h : RendersNodes r nodes parts)
    (hi : inner ∈ nodes) (ht : ∀ child ∈ nodes, ∀ value, child.Reaches (.text value) → texts value)
    (he : f.Encloses (String.join parts) out) :
    ∃ part, Yields (renderTemplate r inner) part ∧ f.Placed texts closed part.toList out.toList := by
  obtain ⟨part, hp, hpl⟩ := exists_placed_of_mem hr h hi ht
  exact ⟨part, hp, he.placed_trans hpl⟩

/-- Markup in an attribute is written into the element. -/
theorem exists_place_of_markup (hr : r.Writes f) (h : RendersAttributes r tag attributes parts)
    (ho : ∀ text ∈ parts, text.toList <:+: out.toList) (hi : inner ∈ attributes.filterMap fun a => a.value.markup?) :
    ∃ part, Yields (renderTemplate r inner) part ∧ (f.Placed texts (f.tagged) part.toList out.toList ∨
      f.tagged ∧ part.toList <:+: out.toList ∧ ∃ a ∈ attributes, a.value.markup? = some inner) := by
  obtain ⟨a, ha, hm⟩ := mem_filterMap.mp hi
  obtain ⟨text, ht, hy⟩ := exists_of_mem_left h (mem_writtenAttributes ha (staticClass?_of_markup? hm))
  obtain ⟨part, hp, hw, he⟩ := exists_of_markup hr hy hm
  refine ⟨part, hp, ?_⟩
  cases hta : f.tagged with
  | true => exact .inr ⟨rfl, hw.trans (ho text ht), a, ha, hm⟩
  | false => exact .inl ((he hta).of_isInfix (ho text ht)).placed

/-- **One step:** what is rendered as part of a node is written into its text, in front of what may stand behind a
node. Only behind markup in an attribute something else may stand. -/
theorem exists_place (hr : r.Writes f) (h : Yields (renderTemplate r node) out) (hi : inner ∈ node.next)
    (htx : ∀ value, node.Reaches (.text value) → texts value) :
    ∃ part, Yields (renderTemplate r inner) part ∧ (f.Placed texts (f.tagged) part.toList out.toList ∨
      f.tagged ∧ part.toList <:+: out.toList ∧ ∃ a ∈ node.attributes, a.value.markup? = some inner) := by
  obtain ⟨shape, hs, hy⟩ := h.exists_shape
  have hn := nodes_of_shapeOf hs
  have hb : ∀ child ∈ shape.nodes, ∀ value, child.Reaches (.text value) → texts value :=
    fun child hc value hv => htx value (.head (show child ∈ node.next from hn ▸ hc) hv)
  rw [← hn] at hi
  -- enclosed nodes are placed, whatever the shape
  have he {nodes : List Template} {parts : List String} (hsu : nodes ⊆ shape.nodes) (hm : inner ∈ nodes)
      (hp : RendersNodes r nodes parts) (hen : f.Encloses (String.join parts) out) :
      ∃ part, Yields (renderTemplate r inner) part ∧ (f.Placed texts (f.tagged = true) part.toList out.toList ∨
        f.tagged = true ∧ part.toList <:+: out.toList ∧ ∃ a ∈ node.attributes, a.value.markup? = some inner) := by
    obtain ⟨part, hpa, hpl⟩ := exists_place_of_encloses hr hp hm (fun child hc => hb child (hsu hc)) hen
    exact ⟨part, hpa, .inl hpl⟩
  cases shape with
  | element tag attributes children =>
    obtain ⟨rfl, -⟩ := eq_of_shapeOf hs rfl
    obtain ⟨parts, texts, hp, hcn, hy⟩ := yields_element hy
    obtain ⟨-, hen, ha⟩ := hr.element hy
    rcases mem_append.mp hi with hi | hi
    · exact exists_place_of_markup hr hp ha hi
    · exact he (subset_append_right ..) hi hcn hen
  | selfClosing tag attributes =>
    obtain ⟨rfl, -⟩ := eq_of_shapeOf hs rfl
    obtain ⟨parts, hp, hy⟩ := yields_selfClosing hy
    exact exists_place_of_markup hr hp (hr.selfClosing hy).2 hi
  | fragment children =>
    obtain ⟨parts, hp, hy⟩ := hy.exists_of_bind
    rcases hr.fragment hy with ⟨-, -, hen⟩ | ⟨ht, rfl⟩
    · exact he (List.Subset.refl _) hi hp.forall₂ hen
    · obtain ⟨part, hpa, before, rest, heq, hl, -⟩ := exists_placed_of_mem hr hp.forall₂ hi hb
      exact ⟨part, hpa, .inl ⟨before, rest, heq, hl, by simp [ht]⟩⟩
  | text value => cases hi
  | expression code => cases hi
  | slot name children =>
    obtain ⟨parts, hp, -, -, hy⟩ := yields_slot hy
    refine he (List.Subset.refl _) hi hp ((hr.slot hy).2 ?_)
    rintro hni
    rw [hni] at hp
    cases hp
    cases hi
  | conditional condition fallback children =>
    obtain ⟨parts, hp, hf, hy⟩ := yields_conditional hy
    obtain ⟨-, hbo, hh⟩ := hr.conditional hy
    rcases mem_append.mp hi with hi | hi
    · exact he (subset_append_left ..) hi hp hbo
    · obtain ⟨value, rfl, hmu⟩ := Option.bind_eq_some_iff.mp (Option.mem_toList.mp hi)
      obtain ⟨text, hte, heq⟩ := hf.exists_of_fallback hmu
      exact ⟨text, hte, .inl (hh text heq).placed⟩
  | each list key item index body =>
    obtain rfl := mem_singleton.mp hi
    obtain ⟨parts, hp, -, hy⟩ := yields_each hy
    exact ⟨parts.body, hp, .inl (hr.repetition hy).2.placed⟩

/-! ### Nodes in the template -/

/-- What is reached is written into the markup. -/
theorem Template.Reaches.isInfix (h : node.Reaches inner) (hr : r.Writes f) (ho : Yields (renderTemplate r node) out) :
    ∃ part, Yields (renderTemplate r inner) part ∧ part.toList <:+: out.toList := by
  induction h using Relation.ReflTransGen.head_induction_on generalizing out with
  | refl => exact ⟨out, ho, infix_rfl⟩
  | head hc _ ih =>
    obtain ⟨part, hp, hpl⟩ := exists_place hr ho hc fun _ _ => trivial
    obtain ⟨piece, hpc, hw⟩ := ih hp
    refine ⟨piece, hpc, hw.trans ?_⟩
    rcases hpl with hp1 | ⟨-, hw, -⟩
    · exact hp1.isInfix
    · exact hw

/-- A node other than text. -/
def Template.IsMarkup (node : Template) : Prop := ∀ value, node ≠ .text value

/-- The markup in attributes is none of it plain text. -/
def Template.HasMarkupValues (node : Template) : Prop :=
  ∀ a ∈ node.attributes, ∀ inner, a.value.markup? = some inner → inner.IsMarkup

/-- **The run:** what is placed in the text of a node that is reached is placed in the markup of the template. In a
frame with tags, markup stands behind it, or text, whatever follows the template. -/
theorem Template.Reaches.placed {piece : List Char} (h : node.Reaches inner) (hr : r.Writes f)
    (htx : ∀ value, node.Reaches (.text value) → texts value)
    (hv : ∀ inner, node.Reaches inner → inner.HasMarkupValues) (hpc : ∀ part, Yields (renderTemplate r inner) part →
      f.Placed texts (f.tagged ∧ inner.IsMarkup) piece part.toList) (ho : Yields (renderTemplate r node) out) :
    f.Placed texts (f.tagged ∧ node.IsMarkup) piece out.toList := by
  induction h using Relation.ReflTransGen.head_induction_on generalizing out with
  | refl => exact hpc out ho
  | @head node child hch hrc ih =>
    obtain ⟨part, hp, hpl⟩ := exists_place hr ho hch htx
    obtain ⟨before, rest, heq, hl, hsh⟩ := ih (fun value hva => htx value (.head hch hva))
      (fun inner hi => hv inner (.head hch hi)) hp
    rcases hpl with ⟨before', rest', heq', hl', hs'⟩ | ⟨ht, ⟨before', rest', heq'⟩, a, ha, hm⟩
    · refine ⟨before' ++ before, rest ++ rest', by rw [heq', heq]; simp, hl.append hl', fun hc => ?_⟩
      exact hl.append_shuts (hs' hc.1)
    · have hs := hsh ⟨ht, hv node .refl a ha child hm⟩
      refine ⟨before' ++ before, rest ++ rest', by rw [← heq', heq]; simp, ?_, fun _ => hs.append rest'⟩
      exact (hs.append rest').leads

end

end Polyview
