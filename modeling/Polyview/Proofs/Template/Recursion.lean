import Mathlib.Data.List.Basic
import Mathlib.Logic.Relation
import Polyview.Template.Render

/-! # The recursion over templates

Rendering a node renders certain nodes below it: `next` lists them. They are smaller than the node, also where
they are no parts of it: the markup of a repetition is rendered without its key (`size_lt_of_mem_next`).

Four methods of a renderer write attributes. `calls` lists the calls of them that rendering makes for a node. -/

namespace Polyview

open List

variable {a : Attribute} {attributes : List Attribute} {merges : Bool}

/-! ### Nodes below a node -/

def AttributeValue.markup? : AttributeValue → Option Template
  | .template node => some node
  | _ => none

/-- A node without the first `key` among its attributes. -/
def Template.withoutKey : Template → Template
  | .element tag attributes children => .element tag (attributes.eraseP fun a => a.name == "key") children
  | .selfClosing tag attributes => .selfClosing tag (attributes.eraseP fun a => a.name == "key")
  | node => node

/-- The parameters and the markup of the callback that is the only child of a node, blanks apart. -/
def Template.callback? (node : Template) : Option (List String × Template) :=
  match node.children.filter fun child => !child.isBlank with
  | [.callback _ params body] => some (params, body)
  | _ => none

/-- The nodes that are rendered as part of a node. -/
def Template.next (node : Template) : List Template :=
  if node.tag? = some "slot" then node.children
  else if node.tag? = some "Show" then
    node.children ++ ((node.attribute? "fallback").bind AttributeValue.markup?).toList
  else if node.tag? = some "For" then (node.callback?.map fun callback => callback.2.withoutKey).toList
  else node.attributes.filterMap (fun a => a.value.markup?) ++ node.children

/-- The nodes that are rendered as part of a shape. -/
def NodeShape.nodes : NodeShape → List Template
  | .slot _ children => children
  | .conditional _ fallback children => children ++ (fallback.bind AttributeValue.markup?).toList
  | .each _ _ _ _ body => [body]
  | .element _ attributes children => attributes.filterMap (fun a => a.value.markup?) ++ children
  | .selfClosing _ attributes => attributes.filterMap fun a => a.value.markup?
  | .fragment children => children
  | .text _ => []
  | .expression _ => []

/-- The second node is the first, or is rendered as part of it. -/
def Template.Reaches : Template → Template → Prop := Relation.ReflTransGen fun node inner => inner ∈ node.next

variable {node inner : Template} {shape : NodeShape}

/-! ### Shapes -/

theorem takeAttribute_snd (name : String) (attributes : List Attribute) :
    (takeAttribute name attributes).2 = attributes.eraseP fun a => a.name == name := by
  induction attributes with
  | nil => rfl
  | cons a rest ih =>
    by_cases hn : a.name == name
    · simp [takeAttribute, hn]
    · simp [takeAttribute, hn, ih]

theorem splitKey_fst (body : Template) : (splitKey body).1 = body.withoutKey := by
  cases body <;> simp [splitKey, Template.withoutKey, takeAttribute_snd]

theorem shapeOf_slot (h : node.tag? = some "slot") : shapeOf node = slotShape node := by
  simp [shapeOf, h]

theorem shapeOf_show (h : node.tag? = some "Show") : shapeOf node = showShape node := by
  simp [shapeOf, h]

theorem shapeOf_for (h : node.tag? = some "For") : shapeOf node = eachShape node := by
  simp [shapeOf, h]

/-- A node that is no control form. -/
structure Template.IsPlain (node : Template) : Prop where
  noSlot : node.tag? ≠ some "slot"
  noShow : node.tag? ≠ some "Show"
  noFor : node.tag? ≠ some "For"

theorem shapeOf_plain (h : node.IsPlain) : shapeOf node = plainShape node := by
  unfold shapeOf
  split
  · next ht => exact (h.noSlot ht).elim
  · next ht => exact (h.noShow ht).elim
  · next ht => exact (h.noFor ht).elim
  · rfl

theorem Template.form (node : Template) :
    node.tag? = some "slot" ∨ node.tag? = some "Show" ∨ node.tag? = some "For" ∨ node.IsPlain := by
  by_cases hsl : node.tag? = some "slot"
  · exact .inl hsl
  by_cases hs : node.tag? = some "Show"
  · exact .inr (.inl hs)
  by_cases hf : node.tag? = some "For"
  · exact .inr (.inr (.inl hf))
  exact .inr (.inr (.inr ⟨hsl, hs, hf⟩))

theorem next_slot (h : node.tag? = some "slot") : node.next = node.children := by
  rw [Template.next, if_pos h]

theorem next_show (h : node.tag? = some "Show") :
    node.next = node.children ++ ((node.attribute? "fallback").bind AttributeValue.markup?).toList := by
  rw [Template.next, h]
  rfl

theorem next_for (h : node.tag? = some "For") :
    node.next = (node.callback?.map fun callback => callback.2.withoutKey).toList := by
  rw [Template.next, h]
  rfl

theorem next_plain (h : node.IsPlain) :
    node.next = node.attributes.filterMap (fun a => a.value.markup?) ++ node.children := by
  rw [Template.next, if_neg h.noSlot, if_neg h.noShow, if_neg h.noFor]

/-- What a repetition consists of. -/
theorem eachShape_eq_ok (h : eachShape node = .ok shape) :
    ∃ list params body item rest, node.expressionAttribute? "each" = some list ∧
      node.callback? = some (params, body) ∧ params = item :: rest ∧ rest.length ≤ 1 ∧
      shape = .each list (node.expressionAttribute? "key" <|> (splitKey body).2) item rest.head? body.withoutKey := by
  unfold eachShape at h
  split at h
  · cases h
  · next list hl =>
    split at h
    · next code params body hch =>
      have hc : node.callback? = some (params, body) := by rw [Template.callback?, hch]
      simp only [splitKey_fst] at h
      split at h
      · next item =>
        cases h
        exact ⟨list, _, body, item, [], hl, hc, rfl, by simp, rfl⟩
      · next item index =>
        cases h
        exact ⟨list, _, body, item, [index], hl, hc, rfl, by simp, rfl⟩
      · cases h
    · cases h

/-- The nodes of a node's shape are those below the node. -/
theorem nodes_of_shapeOf (h : shapeOf node = .ok shape) : shape.nodes = node.next := by
  rcases node.form with hsl | hs | hf | hp
  · rw [shapeOf_slot hsl] at h
    rw [next_slot hsl]
    unfold slotShape at h
    split at h
    · cases h
      rfl
    · cases h
      rfl
    · cases h
  · rw [shapeOf_show hs] at h
    rw [next_show hs]
    unfold showShape at h
    split at h
    · cases h
    · cases h
      rfl
  · rw [shapeOf_for hf] at h
    obtain ⟨list, params, body, item, rest, -, hc, -, -, rfl⟩ := eachShape_eq_ok h
    rw [next_for hf, hc]
    rfl
  · rw [shapeOf_plain hp] at h
    rw [next_plain hp]
    cases node with
    | callback code params body => cases h
    | element tag attributes children =>
      cases h
      rfl
    | selfClosing tag attributes =>
      cases h
      simp [NodeShape.nodes, Template.attributes, Template.children]
    | _ =>
      cases h
      rfl

/-! ### Sizes -/

theorem size_le_of_mem_children {children : List Template} (h : inner ∈ children) :
    inner.size ≤ sizeTemplates children := by
  induction children with
  | nil => cases h
  | cons child rest ih =>
    rw [sizeTemplates]
    rcases mem_cons.mp h with rfl | h
    · omega
    · have := ih h
      omega

theorem size_le_of_markup? (ha : a ∈ attributes) (h : a.value.markup? = some inner) :
    inner.size ≤ sizeAttributes attributes := by
  induction attributes with
  | nil => cases ha
  | cons first rest ih =>
    rw [sizeAttributes]
    rcases mem_cons.mp ha with rfl | ha
    · rcases a with ⟨name, value⟩
      cases value with
      | template markup =>
        cases h
        rw [Attribute.size, AttributeValue.size]
        omega
      | _ => cases h
    · have := ih ha
      omega

theorem sizeAttributes_eraseP_le (test : Attribute → Bool) (attributes : List Attribute) :
    sizeAttributes (attributes.eraseP test) ≤ sizeAttributes attributes := by
  induction attributes with
  | nil => exact Nat.le_refl _
  | cons a rest ih =>
    by_cases ha : test a
    · rw [eraseP_cons_of_pos ha, sizeAttributes]
      omega
    · rw [eraseP_cons_of_neg ha, sizeAttributes, sizeAttributes]
      omega

theorem size_withoutKey_le (body : Template) : body.withoutKey.size ≤ body.size := by
  cases body with
  | element tag attributes children =>
    have := sizeAttributes_eraseP_le (fun a => a.name == "key") attributes
    rw [Template.withoutKey, Template.size, Template.size]
    omega
  | selfClosing tag attributes =>
    have := sizeAttributes_eraseP_le (fun a => a.name == "key") attributes
    rw [Template.withoutKey, Template.size, Template.size]
    omega
  | _ => exact Nat.le_refl _

theorem size_pos (node : Template) : 0 < node.size := by
  cases node <;> rw [Template.size] <;> omega

theorem size_children_lt (node : Template) : sizeTemplates node.children < node.size := by
  cases node with
  | element tag attributes children =>
    rw [Template.children, Template.size]
    omega
  | fragment children =>
    rw [Template.children, Template.size]
    omega
  | _ => exact size_pos _

theorem size_attributes_lt (node : Template) : sizeAttributes node.attributes < node.size := by
  cases node with
  | element tag attributes children =>
    rw [Template.attributes, Template.size]
    omega
  | selfClosing tag attributes =>
    rw [Template.attributes, Template.size]
    omega
  | _ => exact size_pos _

theorem size_lt_of_attribute? {name : String} (h : (node.attribute? name).bind AttributeValue.markup? = some inner) :
    inner.size < node.size := by
  obtain ⟨value, hv, hm⟩ := Option.bind_eq_some_iff.mp h
  obtain ⟨a, ha, rfl⟩ := Option.map_eq_some_iff.mp hv
  have := size_le_of_markup? (mem_of_find?_eq_some ha) hm
  have := size_attributes_lt node
  omega

theorem size_lt_of_callback? {params : List String} {body : Template} (h : node.callback? = some (params, body)) :
    body.size < node.size := by
  unfold Template.callback? at h
  split at h
  · next code params' body' hc =>
    cases h
    have hm : Template.callback code params body ∈ node.children := mem_of_mem_filter (hc ▸ mem_singleton_self _)
    have hl := size_le_of_mem_children hm
    rw [Template.size] at hl
    have := size_children_lt node
    omega
  · cases h

/-- What is rendered as part of a node is smaller than the node. -/
theorem size_lt_of_mem_next (h : inner ∈ node.next) : inner.size < node.size := by
  have hch := size_children_lt node
  have hat := size_attributes_lt node
  rcases node.form with hsl | hs | hf | hp
  · rw [next_slot hsl] at h
    have := size_le_of_mem_children h
    omega
  · rw [next_show hs, mem_append, Option.mem_toList] at h
    rcases h with h | h
    · have := size_le_of_mem_children h
      omega
    · exact size_lt_of_attribute? h
  · rw [next_for hf, Option.mem_toList] at h
    obtain ⟨⟨params, body⟩, hc, rfl⟩ := Option.map_eq_some_iff.mp h
    have := size_lt_of_callback? hc
    have := size_withoutKey_le body
    dsimp only at *
    omega
  · rw [next_plain hp, mem_append, mem_filterMap] at h
    rcases h with ⟨a, ha, h⟩ | h
    · have := size_le_of_markup? ha h
      omega
    · have := size_le_of_mem_children h
      omega

theorem exists_reaches_iff {node : Template} {p : Template → Prop} :
    (∃ inner, node.Reaches inner ∧ p inner) ↔ p node ∨ ∃ child ∈ node.next, ∃ inner, child.Reaches inner ∧ p inner := by
  constructor
  · rintro ⟨inner, hr, hi⟩
    rcases Relation.ReflTransGen.cases_head hr with rfl | ⟨child, hc, hr⟩
    · exact .inl hi
    · exact .inr ⟨child, hc, inner, hr, hi⟩
  · rintro (hn | ⟨child, hc, inner, hr, hi⟩)
    · exact ⟨node, .refl, hn⟩
    · exact ⟨inner, .head hc hr, hi⟩

/-! ### Calls for attributes -/

/-- A call of a method that writes an attribute. -/
inductive AttributeCall
  | reference (tag member : String)
  | attr (tag name : String)
  | classMap (tag name : String)
  | styleMap (tag : String)
deriving DecidableEq, Repr

def Attribute.call (tag : String) (a : Attribute) : AttributeCall :=
  match attributeShape a with
  | .ref member => .reference tag member
  | .classMap name _ _ => .classMap tag name
  | .styleMap _ _ => .styleMap tag
  | .plain name _ => .attr tag name

/-- The attributes that are written one by one: all but the static classes that become entries of a class map. -/
def writtenAttributes (merges : Bool) (attributes : List Attribute) : List Attribute :=
  if attributes.any isClassMap && merges then attributes.filter fun a => (staticClass? a).isNone else attributes

/-- The entries that a class map starts with. -/
def mergedEntries (merges : Bool) (attributes : List Attribute) : List MapEntry :=
  if attributes.any isClassMap && merges then staticEntries attributes else []

/-- The calls for the attributes of a shape. -/
def NodeShape.calls (merges : Bool) : NodeShape → List AttributeCall
  | .element tag attributes _ => (writtenAttributes merges attributes).map (Attribute.call tag)
  | .selfClosing tag attributes => (writtenAttributes merges attributes).map (Attribute.call tag)
  | _ => []

/-- The calls for the attributes of a node. The attributes of control forms are not written. -/
def Template.calls (merges : Bool) (node : Template) : List AttributeCall :=
  if node.tag? ∈ [some "slot", some "Show", some "For"] then []
  else node.tag?.toList.flatMap fun tag => (writtenAttributes merges node.attributes).map (Attribute.call tag)

theorem isPlain_iff {node : Template} : node.IsPlain ↔ node.tag? ∉ [some "slot", some "Show", some "For"] := by
  simp only [mem_cons, not_mem_nil, or_false, not_or]
  exact ⟨fun h => ⟨h.noSlot, h.noShow, h.noFor⟩, fun ⟨hsl, hs, hf⟩ => ⟨hsl, hs, hf⟩⟩

theorem mem_calls {node : Template} {call : AttributeCall} : call ∈ node.calls merges ↔
    node.IsPlain ∧ ∃ tag, node.tag? = some tag ∧ ∃ a ∈ writtenAttributes merges node.attributes, a.call tag = call := by
  rw [isPlain_iff, Template.calls]
  split
  · next hc => simp [hc]
  · next hp => simp [hp]

/-- The calls of a node's shape are those of the node. -/
theorem calls_of_shapeOf {node : Template} {shape : NodeShape} (h : shapeOf node = .ok shape) :
    shape.calls merges = node.calls merges := by
  rcases node.form with ht | ht | ht | hp
  · rw [shapeOf_slot ht] at h
    rw [Template.calls, if_pos (by simp [ht])]
    unfold slotShape at h
    split at h <;> cases h <;> rfl
  · rw [shapeOf_show ht] at h
    rw [Template.calls, if_pos (by simp [ht])]
    unfold showShape at h
    split at h <;> cases h
    rfl
  · rw [shapeOf_for ht] at h
    rw [Template.calls, if_pos (by simp [ht])]
    obtain ⟨list, params, body, item, rest, -, -, -, -, rfl⟩ := eachShape_eq_ok h
    rfl
  · rw [shapeOf_plain hp] at h
    rw [Template.calls, if_neg (isPlain_iff.mp hp)]
    cases node with
    | callback code params body => cases h
    | element tag attributes children =>
      cases h
      simp [NodeShape.calls, Template.tag?, Template.attributes]
    | selfClosing tag attributes =>
      cases h
      simp [NodeShape.calls, Template.tag?, Template.attributes]
    | _ =>
      cases h
      rfl

theorem mem_of_mem_writtenAttributes (h : a ∈ writtenAttributes merges attributes) : a ∈ attributes := by
  unfold writtenAttributes at h
  split at h
  · exact mem_of_mem_filter h
  · exact h

theorem mem_writtenAttributes (h : a ∈ attributes) (hs : staticClass? a = none) :
    a ∈ writtenAttributes merges attributes := by
  unfold writtenAttributes
  split
  · exact mem_filter.mpr ⟨h, by rw [hs]; rfl⟩
  · exact h

/-- No markup is lost with the static classes. -/
theorem staticClass?_of_markup? {node : Template} (h : a.value.markup? = some node) : staticClass? a = none := by
  rcases a with ⟨name, value⟩
  cases value with
  | template markup => rfl
  | _ => cases h

theorem value_of_attributeShape {name : String} {value : AttributeValue} (h : attributeShape a = .plain name value) :
    a.value = value := by
  unfold attributeShape at h
  split at h
  · split at h
    · split at h <;> cases h
      rfl
    · cases h
      rfl
  · split at h
    · cases h
    · split at h <;> cases h
      rfl
  · cases h
    rfl

/-- Classes, styles and references hold no markup. -/
theorem markup?_of_attributeShape (h : ∀ name value, attributeShape a ≠ .plain name value) :
    a.value.markup? = none := by
  rcases a with ⟨name, value⟩
  cases value with
  | template node => exact (h name (.template node) rfl).elim
  | _ => rfl

end Polyview
