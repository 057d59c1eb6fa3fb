import Polyview.Proofs.Backend.ScopedStyles
import Polyview.Proofs.Template.Lowering

/-! # Marked templates

Marking a template with a scope adds an attribute to some of its nodes and changes nothing else: the nodes that are
reached are the same up to the mark (`reaches_withScope`), and a lowered template stays one. -/

namespace Polyview

open List

namespace React

variable {scope : String} {node inner template : Template}

theorem next_markScope (scope : String) (node : Template) : (markScope scope node).next = node.next := by
  cases ho : node.isOpen with
  | true => rw [markScope_of_isOpen ho]
  | false =>
    cases node with
    | element tag attributes children =>
      have hp (attributes : List Attribute) : (Template.element tag attributes children).IsPlain :=
        Template.isPlain_of_isOpen ho rfl
      rw [markScope_element ho, next_plain (hp _), next_plain (hp _)]
      simp [Template.attributes, Template.children, Attribute.value, AttributeValue.markup?]
    | selfClosing tag attributes =>
      have hp (attributes : List Attribute) : (Template.selfClosing tag attributes).IsPlain :=
        Template.isPlain_of_isOpen ho rfl
      rw [markScope_selfClosing ho, next_plain (hp _), next_plain (hp _)]
      simp [Template.attributes, Template.children, Attribute.value, AttributeValue.markup?]
    | _ => rfl

/-- A node that is marked holds what it held. -/
theorem reaches_markScope (h : node.Reaches inner) : inner = node ∨ (markScope scope node).Reaches inner := by
  rcases Relation.ReflTransGen.cases_head h with rfl | ⟨child, hc, hr⟩
  · exact .inl rfl
  · refine .inr (.head (show child ∈ (markScope scope node).next from ?_) hr)
    rwa [next_markScope]

theorem reaches_of_markScope (h : (markScope scope node).Reaches inner) :
    inner = markScope scope node ∨ node.Reaches inner := by
  rcases Relation.ReflTransGen.cases_head h with rfl | ⟨child, hc, hr⟩
  · exact .inl rfl
  · exact .inr (.head (show child ∈ node.next from next_markScope scope node ▸ hc) hr)

theorem eq_text_of_markScope {value : String} (h : markScope scope node = .text value) : node = .text value := by
  cases node with
  | element tag attributes children =>
    rw [markScope] at h
    split at h <;> cases h
  | selfClosing tag attributes =>
    rw [markScope] at h
    split at h <;> cases h
  | _ => exact h

theorem next_fragment (children : List Template) : (Template.fragment children).next = children :=
  next_plain ⟨by simp [Template.tag?], by simp [Template.tag?], by simp [Template.tag?]⟩

/-- In a marked template every node is as it was or marked, the fragment at the root apart. -/
theorem reaches_withScope (h : template.Reaches node) (hn : ∀ children, node ≠ .fragment children) :
    (withScope scope template).Reaches node ∨ (withScope scope template).Reaches (markScope scope node) := by
  have hp (root : Template) (h : root.Reaches node) :
      (markScope scope root).Reaches node ∨ (markScope scope root).Reaches (markScope scope node) := by
    rcases reaches_markScope h with rfl | h
    · exact .inr .refl
    · exact .inl h
  cases template with
  | fragment children =>
    rcases Relation.ReflTransGen.cases_head h with rfl | ⟨child, hc, hr⟩
    · exact absurd rfl (hn children)
    · replace hc : child ∈ (Template.fragment children).next := hc
      rw [next_fragment] at hc
      have hm : markScope scope child ∈ (withScope scope (.fragment children)).next := by
        rw [withScope, next_fragment]
        exact mem_map_of_mem hc
      exact (hp child hr).imp (Relation.ReflTransGen.head hm) (Relation.ReflTransGen.head hm)
  | _ => exact hp _ h

theorem reaches_text_withScope {value : String} :
    (withScope scope template).Reaches (.text value) ↔ template.Reaches (.text value) := by
  have hp {root : Template} (h : (markScope scope root).Reaches (.text value)) : root.Reaches (.text value) := by
    rcases reaches_of_markScope h with heq | h
    · rw [eq_text_of_markScope heq.symm]
      exact .refl
    · exact h
  refine ⟨fun h => ?_, fun h => (reaches_withScope h (by rintro children ⟨⟩)).elim id id⟩
  cases template with
  | fragment children =>
    rcases Relation.ReflTransGen.cases_head h with heq | ⟨marked, hm, hr⟩
    · cases heq
    · replace hm : marked ∈ (withScope scope (.fragment children)).next := hm
      rw [withScope, next_fragment] at hm
      obtain ⟨child, hc, rfl⟩ := mem_map.mp hm
      exact .head (show child ∈ (Template.fragment children).next from (next_fragment children).symm ▸ hc)
        (hp hr)
  | _ => exact hp h

theorem lowered_markScope (h : node.Lowered) : (markScope scope node).Lowered := by
  have hb {attributes : List Attribute} {p : Template → Prop}
      (h : ∀ a ∈ attributes, ∀ inner, a.value.markup? = some inner → p inner) :
      ∀ a ∈ attributes ++ [.mk scope .boolean], ∀ inner, a.value.markup? = some inner → p inner := by
    intro a ha inner hi
    rcases mem_append.mp ha with ha | ha
    · exact h a ha inner hi
    · obtain rfl := mem_singleton.mp ha
      cases hi
  cases ho : node.isOpen with
  | true => rwa [markScope_of_isOpen ho]
  | false =>
    cases h with
    | element values markup nodes =>
      rw [markScope_element ho]
      exact .element (hb values) (hb markup) nodes
    | selfClosing values markup =>
      rw [markScope_selfClosing ho]
      exact .selfClosing (hb values) (hb markup)
    | fragment nodes => exact .fragment nodes
    | text between => exact .text between
    | expression => exact .expression
    | callback markup => exact .callback markup

theorem lowered_withScope (h : template.Lowered) : (withScope scope template).Lowered := by
  cases h with
  | fragment nodes =>
    refine .fragment fun marked hm => ?_
    obtain ⟨child, hc, rfl⟩ := mem_map.mp hm
    exact lowered_markScope (nodes child hc)
  | element values markup nodes => exact lowered_markScope (.element values markup nodes)
  | selfClosing values markup => exact lowered_markScope (.selfClosing values markup)
  | text between => exact .text between
  | expression => exact .expression
  | callback markup => exact .callback markup

theorem isMarkup_withScope (h : template.IsMarkup) : (withScope scope template).IsMarkup := by
  intro value heq
  cases template with
  | fragment children => cases heq
  | text other => exact h value heq
  | element tag attributes children => exact h value (eq_text_of_markScope heq)
  | selfClosing tag attributes => exact h value (eq_text_of_markScope heq)
  | _ => cases heq

theorem writtenAttributes_append (merges : Bool) (attributes : List Attribute) :
    writtenAttributes merges (attributes ++ [.mk scope .boolean]) =
      writtenAttributes merges attributes ++ [.mk scope .boolean] := by
  have hm : isClassMap (.mk scope .boolean) = false := rfl
  have hs : staticClass? (.mk scope .boolean) = none := rfl
  rw [writtenAttributes, writtenAttributes, any_append]
  simp only [any_cons, any_nil, hm, Bool.or_false]
  split
  · simp [hs]
  · rfl

theorem attributes_markScope (scope : String) (node : Template) : (markScope scope node).attributes = node.attributes ∨
    (markScope scope node).attributes = node.attributes ++ [.mk scope .boolean] := by
  cases node with
  | element tag attributes children =>
    rw [markScope]
    split
    · exact .inl rfl
    · exact .inr rfl
  | selfClosing tag attributes =>
    rw [markScope]
    split
    · exact .inl rfl
    · exact .inr rfl
  | _ => exact .inl rfl

theorem tag?_markScope (scope : String) (node : Template) : (markScope scope node).tag? = node.tag? := by
  cases node with
  | element tag attributes children =>
    rw [markScope]
    split <;> rfl
  | selfClosing tag attributes =>
    rw [markScope]
    split <;> rfl
  | _ => rfl

theorem isPlain_markScope (scope : String) (h : node.IsPlain) : (markScope scope node).IsPlain := by
  have ht := tag?_markScope scope node
  exact ⟨ht ▸ h.noSlot, ht ▸ h.noShow, ht ▸ h.noFor⟩

end React

end Polyview
