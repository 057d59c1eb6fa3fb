import Polyview.Proofs.Template.Calls
import Polyview.Proofs.Unit.Roles

/-! # References in templates

References are checked by a walk over all attributes of a template, and written by rendering, which reaches some nodes
only and takes some without their keys. The walk covers what rendering reaches (`allAttributes_subset_of_reaches`), and
what the walk accepts is told to be a reference (`attributeShape_of_refFault?`). So in a component from a source, every
reference that is written is a declared one, and no `ref` is written as an attribute of another kind
(`references_declared`). -/

namespace Polyview

open List

variable {node inner : Template} {a : Attribute} {c : Component}

/-! ### The walk covers what is rendered -/

theorem attributesOfAttributes_eq_flatMap (attributes : List Attribute) :
    attributesOfAttributes attributes = attributes.flatMap Attribute.allAttributes := by
  induction attributes with
  | nil => rw [attributesOfAttributes, flatMap_nil]
  | cons a rest ih => rw [attributesOfAttributes, ih, flatMap_cons]

theorem attributesOfTemplates_eq_flatMap (nodes : List Template) :
    attributesOfTemplates nodes = nodes.flatMap Template.allAttributes := by
  induction nodes with
  | nil => rw [attributesOfTemplates, flatMap_nil]
  | cons node rest ih => rw [attributesOfTemplates, ih, flatMap_cons]

theorem self_mem_allAttributes (a : Attribute) : a ∈ a.allAttributes := by
  rcases a with ⟨name, value⟩
  rw [Attribute.allAttributes]
  exact .head _

theorem allAttributes_subset_of_markup? (h : a.value.markup? = some inner) : inner.allAttributes ⊆ a.allAttributes := by
  rcases a with ⟨name, value⟩
  cases value with
  | template markup =>
    cases h
    rw [Attribute.allAttributes, AttributeValue.allAttributes]
    exact subset_cons_self ..
  | _ => cases h

theorem allAttributes_subset_of_mem_attributes (h : a ∈ node.attributes) : a.allAttributes ⊆ node.allAttributes := by
  have hs {attributes : List Attribute} (h : a ∈ attributes) :
      a.allAttributes ⊆ attributesOfAttributes attributes := by
    rw [attributesOfAttributes_eq_flatMap]
    exact fun b hb => mem_flatMap.mpr ⟨a, h, hb⟩
  cases node with
  | element tag attributes children =>
    rw [Template.allAttributes]
    exact subset_append_of_subset_left _ (hs h)
  | selfClosing tag attributes =>
    rw [Template.allAttributes]
    exact hs h
  | _ => cases h

theorem allAttributes_subset_of_mem_children (h : inner ∈ node.children) :
    inner.allAttributes ⊆ node.allAttributes := by
  have hs {children : List Template} (h : inner ∈ children) :
      inner.allAttributes ⊆ attributesOfTemplates children := by
    rw [attributesOfTemplates_eq_flatMap]
    exact fun b hb => mem_flatMap.mpr ⟨inner, h, hb⟩
  cases node with
  | element tag attributes children =>
    rw [Template.allAttributes]
    exact subset_append_of_subset_right _ (hs h)
  | fragment children =>
    rw [Template.allAttributes]
    exact hs h
  | _ => cases h

theorem allAttributes_withoutKey_subset (body : Template) : body.withoutKey.allAttributes ⊆ body.allAttributes := by
  have hs (attributes : List Attribute) : attributesOfAttributes (attributes.eraseP fun a => a.name == "key") ⊆
      attributesOfAttributes attributes := by
    rw [attributesOfAttributes_eq_flatMap, attributesOfAttributes_eq_flatMap]
    intro b hb
    obtain ⟨a, ha, hb⟩ := mem_flatMap.mp hb
    exact mem_flatMap.mpr ⟨a, mem_of_mem_eraseP ha, hb⟩
  cases body with
  | element tag attributes children =>
    rw [Template.withoutKey, Template.allAttributes, Template.allAttributes]
    exact append_subset.mpr
      ⟨subset_append_of_subset_left _ (hs attributes), subset_append_right ..⟩
  | selfClosing tag attributes =>
    rw [Template.withoutKey, Template.allAttributes, Template.allAttributes]
    exact hs attributes
  | _ => exact List.Subset.refl _

theorem allAttributes_subset_of_callback? {params : List String} {body : Template}
    (h : node.callback? = some (params, body)) : body.allAttributes ⊆ node.allAttributes := by
  unfold Template.callback? at h
  split at h
  · next code params' body' hc =>
    cases h
    have hm : Template.callback code params body ∈ node.children := mem_of_mem_filter (hc ▸ mem_singleton_self _)
    have hs := allAttributes_subset_of_mem_children hm
    rwa [Template.allAttributes] at hs
  · cases h

/-- What is rendered as part of a node has no other attributes than those of the node. -/
theorem allAttributes_subset_of_mem_next (h : inner ∈ node.next) : inner.allAttributes ⊆ node.allAttributes := by
  rcases node.form with hsl | hs | hf | hp
  · rw [next_slot hsl] at h
    exact allAttributes_subset_of_mem_children h
  · rw [next_show hs, mem_append, Option.mem_toList] at h
    rcases h with h | h
    · exact allAttributes_subset_of_mem_children h
    · obtain ⟨value, hv, hm⟩ := Option.bind_eq_some_iff.mp h
      obtain ⟨a, ha, rfl⟩ := Option.map_eq_some_iff.mp hv
      exact List.Subset.trans (allAttributes_subset_of_markup? hm)
        (allAttributes_subset_of_mem_attributes (mem_of_find?_eq_some ha))
  · rw [next_for hf, Option.mem_toList] at h
    -- the markup that is rendered is no part of the node: its key has been taken off
    obtain ⟨⟨params, body⟩, hc, rfl⟩ := Option.map_eq_some_iff.mp h
    exact List.Subset.trans (allAttributes_withoutKey_subset body) (allAttributes_subset_of_callback? hc)
  · rw [next_plain hp, mem_append, mem_filterMap] at h
    rcases h with ⟨a, ha, hm⟩ | h
    · exact List.Subset.trans (allAttributes_subset_of_markup? hm) (allAttributes_subset_of_mem_attributes ha)
    · exact allAttributes_subset_of_mem_children h

/-- **The walk covers rendering:** what rendering reaches has no attribute that the walk does not meet. -/
theorem allAttributes_subset_of_reaches (h : node.Reaches inner) : inner.allAttributes ⊆ node.allAttributes := by
  induction h with
  | refl => exact List.Subset.refl _
  | tail _ hn ih => exact List.Subset.trans (allAttributes_subset_of_mem_next hn) ih

theorem mem_allAttributes_of_reaches (h : node.Reaches inner) (ha : a ∈ inner.attributes) : a ∈ node.allAttributes :=
  allAttributes_subset_of_reaches h (allAttributes_subset_of_mem_attributes ha (self_mem_allAttributes a))

/-! ### What the check accepts -/

theorem checkRefs_eq_ok : checkRefs c node = .ok () ↔ ∀ a ∈ node.allAttributes, refFault? c a = none := by
  rw [← findSome?_eq_none_iff, checkRefs]
  cases node.allAttributes.findSome? (refFault? c) <;> simp

/-- A `ref` without a fault is told to be a reference to a declared member. -/
theorem attributeShape_of_refFault? (h : refFault? c a = none) (hn : a.name = "ref") :
    ∃ member, attributeShape a = .ref member ∧ ∃ field ∈ c.refs, field.name = member := by
  rcases a with ⟨name, value⟩
  obtain rfl : name = "ref" := hn
  cases value with
  | expression code =>
    -- the check finds the member with the same function as the renderer
    cases hm : refMember? code with
    | none => simp [refFault?, hm, Attribute.name, Attribute.value] at h
    | some member =>
      have hd : c.isRef member := by simpa [refFault?, hm, Attribute.name, Attribute.value] using h
      exact ⟨member, by simp [attributeShape, hm], by simpa [Component.isRef] using hd⟩
  | _ => simp [refFault?, Attribute.name, Attribute.value] at h

/-- A unit that gives a component is read as the class that declares it. -/
theorem exists_componentOf_of_extractComponent {text : String} (h : extractComponent text = .ok c) :
    ∃ tree table items marked name, Script.parse? true text.toList = some tree ∧
      items = tree.root.parts.map (unitItem text.toList table) ∧ onlyClass text.toList items = .ok (marked, name) ∧
      componentOf text.toList table tree.comments marked name items = .ok c := by
  unfold extractComponent at h
  obtain ⟨unit, hu, h⟩ := bind_eq_ok.mp h
  cases unit with
  | provider p => cases h
  | component extracted =>
    cases h
    unfold extractUnit at hu
    dsimp only at hu
    split at hu
    · cases hu
    · next tree hp =>
      obtain ⟨⟨marked, name⟩, hcl, hu⟩ := bind_eq_ok.mp hu
      dsimp only at hu
      split at hu
      · cases hu
      · obtain ⟨extracted, hc, hu⟩ := bind_eq_ok.mp hu
        cases hu
        exact ⟨tree, _, _, marked, name, hp, rfl, hcl, hc⟩

theorem attributeShape_of_extractComponent {text : String} (h : extractComponent text = .ok c)
    (ha : a ∈ c.template.allAttributes) (hn : a.name = "ref") :
    ∃ member, attributeShape a = .ref member ∧ ∃ field ∈ c.refs, field.name = member := by
  obtain ⟨tree, table, items, marked, className, -, -, -, hc⟩ := exists_componentOf_of_extractComponent h
  obtain ⟨roles, bare, operand, template, -, -, -, -, -, -, hr, rfl⟩ := componentOf_eq_ok hc
  exact attributeShape_of_refFault? (checkRefs_eq_ok.mp hr a ha) hn

/-! ### Calls for references -/

/-- A call that is right for the references of a component: a reference is a declared one, and what is written as an
attribute is no `ref`. -/
def AttributeCall.IsSound (c : Component) : AttributeCall → Prop
  | .reference _ member => ∃ field ∈ c.refs, field.name = member
  | .attr _ name => name ≠ "ref"
  | .classMap _ name => name ≠ "ref"
  | .styleMap _ => True

theorem attributeShape_cases (a : Attribute) : (∃ member, attributeShape a = .ref member ∧ a.name = "ref") ∨
      (∃ name entries code, attributeShape a = .classMap name entries code ∧ isClassName name) ∨
      (∃ entries code, attributeShape a = .styleMap entries code) ∨
      ∃ value, attributeShape a = .plain a.name value := by
  rcases a with ⟨name, value⟩
  cases value with
  | expression code =>
    by_cases hn : name = "ref"
    · subst hn
      cases hm : refMember? code with
      | none => exact .inr (.inr (.inr ⟨.expression code, by simp [attributeShape, hm, Attribute.name]⟩))
      | some member => exact .inl ⟨member, by simp [attributeShape, hm], rfl⟩
    · exact .inr (.inr (.inr ⟨.expression code, by simp [attributeShape, hn, Attribute.name]⟩))
  | objectMap entries code =>
    by_cases hc : isClassName name = true
    · exact .inr (.inl ⟨name, entries, code, by simp [attributeShape, hc], hc⟩)
    · by_cases hs : name = "style"
      · subst hs
        exact .inr (.inr (.inl ⟨entries, code, by simp [attributeShape, hc]⟩))
      · exact .inr (.inr (.inr ⟨.objectMap entries code, by simp [attributeShape, hc, hs, Attribute.name]⟩))
  | _ => exact .inr (.inr (.inr ⟨_, rfl⟩))

/-- The call for an attribute is right if the attribute is no `ref` or is told to be a declared reference. -/
theorem call_isSound
    (h : a.name = "ref" → ∃ member, attributeShape a = .ref member ∧ ∃ field ∈ c.refs, field.name = member)
    (tag : String) : (a.call tag).IsSound c := by
  rcases attributeShape_cases a with ⟨member, hs, hn⟩ | ⟨name, entries, code, hs, hc⟩ |
    ⟨entries, code, hs⟩ | ⟨value, hs⟩
  · obtain ⟨member', hs', hd⟩ := h hn
    cases hs.symm.trans hs'
    rw [Attribute.call, hs]
    exact hd
  · rw [Attribute.call, hs]
    rintro rfl
    cases hc
  · rw [Attribute.call, hs]
    trivial
  · rw [Attribute.call, hs]
    intro hn
    obtain ⟨member, hs', -⟩ := h hn
    cases hs.symm.trans hs'

/-- A `ref` never belongs to the static classes of an element. -/
theorem staticClass?_of_name (h : a.name = "ref") : staticClass? a = none := by
  rcases a with ⟨name, value⟩
  obtain rfl : name = "ref" := h
  cases value <;> rfl

/-- **References are declared.** While a renderer renders the template of an extracted component, each reference that
it is asked to write is a declared one, and it is never asked to write a `ref` as an attribute of another kind. Every
`ref` of every node that is reached is told to be a declared reference, and it is written as such if rendering
succeeds. -/
theorem references_declared {text : String} {c : Component} (h : extractComponent text = .ok c) {σ : Type}
    (r : Renderer σ) {state after : σ} {result : Except Error String}
    (hrun : (renderTemplate r c.template).run state = (result, after)) :
    ∃ calls, (renderTemplate r.recording c.template).run (state, []) = (result, after, calls) ∧
      (∀ call ∈ calls, call.IsSound c) ∧
      ∀ inner, c.template.Reaches inner → ∀ a ∈ inner.attributes, a.name = "ref" →
        ∃ member, attributeShape a = .ref member ∧ (∃ field ∈ c.refs, field.name = member) ∧
          ∀ tag markup, inner.IsPlain → inner.tag? = some tag → result = .ok markup →
            .reference tag member ∈ calls := by
  have href {inner : Template} (hr : c.template.Reaches inner) {a : Attribute} (ha : a ∈ inner.attributes)
      (hn : a.name = "ref") :=
    attributeShape_of_extractComponent h (mem_allAttributes_of_reaches hr ha) hn
  obtain ⟨calls, hre, hca, hal⟩ := renderTemplate_records r c.template state result after hrun []
  refine ⟨calls, hre, ?_, ?_⟩
  · intro call hc
    obtain ⟨inner, hr, hc⟩ := hca call hc
    obtain ⟨-, tag, -, a, ha, rfl⟩ := mem_calls.mp hc
    exact call_isSound (href hr (mem_of_mem_writtenAttributes ha)) tag
  · intro inner hr a ha hn
    obtain ⟨member, hs, hd⟩ := href hr ha hn
    refine ⟨member, hs, hd, fun tag markup hp ht ho => hal markup ho _ ⟨inner, hr, ?_⟩⟩
    have hw : a ∈ writtenAttributes r.mergesStaticClass inner.attributes :=
      mem_writtenAttributes ha (staticClass?_of_name hn)
    exact mem_calls.mpr ⟨hp, tag, ht, a, hw, by rw [Attribute.call, hs]⟩

/-- A list whose items have a key and a reference. -/
def listSourceWithRef : String :=
  "import\x7bComponent as C,Ref as R\x7dfrom\"@tessera/core\";@C()class A\x7b@R()private a!:E;
  render()\x7breturn<For each=\x7bxs\x7d>\x7bx=><b key=\x7bx\x7d id=\"x\" ref=\x7bthis.a\x7d/>\x7d</For>\x7d\x7d"

def recordedCalls (c : Component) : List AttributeCall :=
  ((renderTemplate codeRenderer.recording c.template).run ((), [])).2.2

/-- The key is taken off the item, and its reference is written as one. -/
theorem references_declared_list : ∃ c, extractComponent listSourceWithRef = .ok c ∧
      recordedCalls c = [.attr "b" "id", .reference "b" "a"] ∧
      ∀ call ∈ recordedCalls c, call.IsSound c := by
  have hc : (extractComponent listSourceWithRef).toOption.map recordedCalls =
      some [.attr "b" "id", .reference "b" "a"] := by decide +kernel
  cases h : extractComponent listSourceWithRef with
  | error error =>
    rw [h] at hc
    cases hc
  | ok c =>
    rw [h] at hc
    refine ⟨c, rfl, Option.some.inj hc, ?_⟩
    rcases hru : (renderTemplate codeRenderer c.template).run () with ⟨result, after⟩
    obtain ⟨calls, hr, hs, -⟩ := references_declared h codeRenderer hru
    rw [recordedCalls, hr]
    exact hs

end Polyview
