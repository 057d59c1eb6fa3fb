import Polyview.Proofs.Template.Placement
import Polyview.Proofs.Template.References
import Polyview.Proofs.Text.JsxText
import Polyview.Proofs.Unit.Removal

/-! # What markup is lowered to

The templates of components come from markup. So their text is what remains of text between tags: it holds no brackets
and is one line. And the markup in attributes is an element or a fragment, never text alone (`Template.Lowered`). -/

namespace Polyview

open List Script Text Option

/-- What remains of text between tags. -/
structure IsTextBetween (value : String) : Prop where
  ink : value ≠ ""
  plain : ∀ c ∈ value.toList, isBracket c = false
  oneLine : '\n' ∉ value.toList ∧ '\t' ∉ value.toList

/-- A template as markup is lowered to. -/
inductive Template.Lowered : Template → Prop
  | element {tag : String} {attributes : List Attribute} {children : List Template}
      (values : ∀ a ∈ attributes, ∀ inner, a.value.markup? = some inner → inner.Lowered)
      (markup : ∀ a ∈ attributes, ∀ inner, a.value.markup? = some inner → inner.IsMarkup)
      (nodes : ∀ child ∈ children, child.Lowered) : Lowered (.element tag attributes children)
  | selfClosing {tag : String} {attributes : List Attribute}
      (values : ∀ a ∈ attributes, ∀ inner, a.value.markup? = some inner → inner.Lowered)
      (markup : ∀ a ∈ attributes, ∀ inner, a.value.markup? = some inner → inner.IsMarkup) :
      Lowered (.selfClosing tag attributes)
  | fragment {children : List Template} (nodes : ∀ child ∈ children, child.Lowered) : Lowered (.fragment children)
  | text {value : String} (between : IsTextBetween value) : Lowered (.text value)
  | expression {code : String} : Lowered (.expression code)
  | callback {code : String} {params : List String} {body : Template} (markup : body.Lowered) :
      Lowered (.callback code params body)

namespace Template

variable {node inner : Template}

theorem Lowered.values (h : node.Lowered) {a : Attribute} (ha : a ∈ node.attributes)
    (hm : a.value.markup? = some inner) : inner.Lowered ∧ inner.IsMarkup := by
  cases h with
  | element values markup => exact ⟨values a ha inner hm, markup a ha inner hm⟩
  | selfClosing values markup => exact ⟨values a ha inner hm, markup a ha inner hm⟩
  | _ => cases ha

theorem Lowered.children (h : node.Lowered) {child : Template} (hc : child ∈ node.children) : child.Lowered := by
  cases h with
  | element _ _ nodes => exact nodes child hc
  | fragment nodes => exact nodes child hc
  | _ => cases hc

theorem Lowered.withoutKey (h : node.Lowered) : node.withoutKey.Lowered := by
  cases h with
  | element values markup nodes =>
    exact .element (fun a ha => values a (mem_of_mem_eraseP ha))
      (fun a ha => markup a (mem_of_mem_eraseP ha)) nodes
  | selfClosing values markup =>
    exact .selfClosing (fun a ha => values a (mem_of_mem_eraseP ha))
      fun a ha => markup a (mem_of_mem_eraseP ha)
  | fragment nodes => exact .fragment nodes
  | text between => exact .text between
  | expression => exact .expression
  | callback markup => exact .callback markup

theorem Lowered.callback? (h : node.Lowered) {params : List String} {body : Template}
    (hb : node.callback? = some (params, body)) : body.Lowered := by
  unfold Template.callback? at hb
  split at hb
  · next code params body' hf =>
    cases hb
    have hm : Template.callback code params body ∈ node.children := mem_of_mem_filter (hf ▸ mem_singleton_self _)
    cases h.children hm with
    | callback markup => exact markup
  · cases hb

/-- What is rendered as part of a lowered node is lowered. -/
theorem Lowered.of_mem_next (h : node.Lowered) (hi : inner ∈ node.next) : inner.Lowered := by
  rcases node.form with ht | ht | ht | hp
  · rw [next_slot ht] at hi
    exact h.children hi
  · rw [next_show ht] at hi
    rcases mem_append.mp hi with hi | hi
    · exact h.children hi
    · obtain ⟨value, hv, hm⟩ := bind_eq_some_iff.mp (mem_toList.mp hi)
      obtain ⟨a, ha, rfl⟩ := map_eq_some_iff.mp hv
      exact (h.values (mem_of_find?_eq_some ha) hm).1
  · rw [next_for ht] at hi
    obtain ⟨⟨params, body⟩, hb, rfl⟩ := map_eq_some_iff.mp (mem_toList.mp hi)
    exact (h.callback? hb).withoutKey
  · rw [next_plain hp] at hi
    rcases mem_append.mp hi with hi | hi
    · obtain ⟨a, ha, hm⟩ := mem_filterMap.mp hi
      exact (h.values ha hm).1
    · exact h.children hi

theorem Lowered.of_reaches (h : node.Lowered) (hi : node.Reaches inner) : inner.Lowered := by
  induction hi with
  | refl => exact h
  | tail _ hc ih => exact ih.of_mem_next hc

theorem Lowered.hasMarkupValues (h : node.Lowered) : node.HasMarkupValues := fun _ ha _ hm => (h.values ha hm).2

end Template

/-! ### Lowering -/

section

variable {source : List Char}

/-- What remains of text that a tree has between tags. -/
theorem isTextBetween_of_laid {span : Span} {parts : List Node} {value : String}
    (hl : (Node.mk .jsxText span parts).Laid source) (h : cleanJsxText? (span.text source) = some value) :
    IsTextBetween value := by
  obtain ⟨-, hs, hlt, ⟨-, text, rest, ht, hr, part, rfl, hp⟩, -⟩ := (laid_mk_of_isFramed rfl).mp hl
  obtain ⟨after, ha, hcu, -⟩ := ht.exists_chars hs (Nat.le_of_lt hlt)
  obtain rfl := ha.unique hr
  obtain rfl := append_cancel_right hcu
  unfold cleanJsxText? at h
  extract_lets kept at h
  split at h
  · cases h
  · next he =>
    cases h
    have hch : (span.text source).toList = span.chars source := String.toList_ofList
    rw [Bool.not_eq_true, isEmpty_eq_false_iff] at he
    refine ⟨?_, fun c hc => ?_, ?_⟩
    · rintro heq
      exact he (by simpa using congrArg String.toList heq)
    · rw [String.toList_ofList] at hc
      obtain ⟨-, -, rfl | hc⟩ := mem_cleanJsxChars hc
      · rfl
      · exact hp c (hch ▸ hc)
    · rw [String.toList_ofList]
      exact ⟨fun hm => (mem_cleanJsxChars hm).1 rfl, fun hm => (mem_cleanJsxChars hm).2.1 rfl⟩

theorem laid_part {node part : Node} (h : node.Laid source) (hp : part ∈ node.parts) : part.Laid source :=
  h.row_parts.laid_of_mem hp

theorem markup?_of_codeValue {expr : Node} {value : AttributeValue} (h : codeValue source expr = .ok value) :
    value.markup? = none := by
  unfold codeValue at h
  obtain ⟨_, -, h⟩ := bind_eq_ok.mp h
  split at h
  · split at h
    · cases h
      rfl
    · cases h
      rfl
  · cases h
    rfl

/-- An expression between tags is lowered to its markup, to a callback or to its text. -/
theorem lowered_of_childOf {markup callback : Except Error (Option Template)} {expr : Node} {child : Template}
    (h : childOf source markup callback expr = .ok (some child))
    (hm : ∀ template, markup = .ok (some template) → template.Lowered)
    (hcb : ∀ template, callback = .ok (some template) → template.Lowered) : child.Lowered := by
  unfold childOf at h
  split at h
  · cases h
  · obtain ⟨found, hf, h⟩ := bind_eq_ok.mp h
    cases found with
    | some template =>
      cases h
      exact hm child hf
    | none =>
      obtain ⟨called, hc, h⟩ := bind_eq_ok.mp h
      cases called with
      | some template =>
        cases h
        exact hcb child hc
      | none =>
        obtain ⟨_, -, h⟩ := bind_eq_ok.mp h
        cases h
        exact .expression

mutual

/-- Markup is lowered to an element or a fragment. -/
theorem lowered_of_markupOf? {node : Node} {template : Template} (h : markupOf? source node = .ok (some template))
    (hl : node.Laid source) : template.Lowered ∧ template.IsMarkup := by
  unfold markupOf? at h
  split at h
  · next inner => exact lowered_of_markupOf? h (laid_part hl (.head _))
  · next selfClosing span name items content =>
    have ho := laid_part hl (.head _)
    obtain ⟨tag, -, h⟩ := bind_eq_ok.mp h
    obtain ⟨attributes, hat, h⟩ := bind_eq_ok.mp h
    have hv := lowered_of_attributesOf hat fun item hit => laid_part ho (.tail _ hit)
    split at h
    · cases h
      exact ⟨.selfClosing (fun a ha inner hi => (hv a ha inner hi).1)
        fun a ha inner hi => (hv a ha inner hi).2, by rintro value ⟨⟩⟩
    · obtain ⟨children, hc, h⟩ := bind_eq_ok.mp h
      cases h
      refine ⟨.element (fun a ha inner hi => (hv a ha inner hi).1)
        (fun a ha inner hi => (hv a ha inner hi).2) ?_, by rintro value ⟨⟩⟩
      exact lowered_of_childrenOf hc fun part hp => laid_part hl (.tail _ hp)
  · next content =>
    obtain ⟨children, hc, h⟩ := bind_eq_ok.mp h
    cases h
    exact ⟨.fragment (lowered_of_childrenOf hc fun part hp => laid_part hl hp), by rintro value ⟨⟩⟩
  · cases h
termination_by sizeOf node

theorem lowered_of_attributesOf {tag : String} {items : List Node} {attributes : List Attribute}
    (h : attributesOf source tag items = .ok attributes) (hl : ∀ item ∈ items, item.Laid source) :
    ∀ a ∈ attributes, ∀ inner, a.value.markup? = some inner → inner.Lowered ∧ inner.IsMarkup := by
  unfold attributesOf at h
  split at h
  · cases h
    intro a ha
    cases ha
  · next name span value rest =>
    obtain ⟨found, hf, h⟩ := bind_eq_ok.mp h
    obtain ⟨others, ho, h⟩ := bind_eq_ok.mp h
    cases h
    intro a ha inner hin
    rcases mem_cons.mp ha with rfl | ha
    · have hi := hl _ (.head _)
      exact lowered_of_attributeValue hf (fun part hp => laid_part hi hp) hin
    · refine lowered_of_attributesOf ho (fun item hi => ?_) a ha inner hin
      exact hl item (.tail _ hi)
  · cases h
  · exact lowered_of_attributesOf h fun item hi => hl item (.tail _ hi)
termination_by sizeOf items

theorem lowered_of_attributeValue {parts : List Node} {value : AttributeValue} {inner : Template}
    (h : attributeValue source parts = .ok value) (hl : ∀ part ∈ parts, part.Laid source)
    (hi : value.markup? = some inner) : inner.Lowered ∧ inner.IsMarkup := by
  unfold attributeValue at h
  split at h
  · cases h
    cases hi
  · cases h
    cases hi
  · next span expr _ =>
    obtain ⟨found, hf, h⟩ := bind_eq_ok.mp h
    cases found with
    | some template =>
      cases h
      cases hi
      exact lowered_of_markupOf? hf (laid_part (hl _ (.head _)) (.head _))
    | none => cases (markup?_of_codeValue h).symm.trans hi
  · next node _ _ _ =>
    obtain ⟨found, hf, h⟩ := bind_eq_ok.mp h
    cases found with
    | some template =>
      cases h
      cases hi
      exact lowered_of_markupOf? hf (hl _ (.head _))
    | none =>
      cases h
      cases hi
  · cases h
    cases hi
termination_by sizeOf parts

theorem lowered_of_childrenOf {content : List Node} {children : List Template}
    (h : childrenOf source content = .ok children) (hl : ∀ part ∈ content, part.Laid source) :
    ∀ child ∈ children, child.Lowered := by
  unfold childrenOf at h
  split at h
  · cases h
    intro child hc
    cases hc
  · next span parts rest =>
    obtain ⟨others, ho, h⟩ := bind_eq_ok.mp h
    cases h
    intro child hc
    rcases mem_append.mp hc with hc | hc
    · obtain ⟨value, hv, rfl⟩ := map_eq_some_iff.mp (mem_toList.mp hc)
      exact .text (isTextBetween_of_laid (hl _ (.head _)) hv)
    · exact lowered_of_childrenOf ho (fun part hp => hl part (.tail _ hp)) child hc
  · next span expr rest =>
    obtain ⟨found, hf, h⟩ := bind_eq_ok.mp h
    obtain ⟨others, ho, h⟩ := bind_eq_ok.mp h
    cases h
    have he := laid_part (hl _ (.head _)) (.head _)
    intro child hc
    rcases mem_append.mp hc with hc | hc
    · obtain rfl := mem_toList.mp hc
      exact lowered_of_childOf hf (fun template h => (lowered_of_markupOf? h he).1)
        fun template h => lowered_of_callbackOf? h he
    · exact lowered_of_childrenOf ho (fun part hp => hl part (.tail _ hp)) child hc
  · cases h
  · next node rest _ _ _ =>
    obtain ⟨found, hf, h⟩ := bind_eq_ok.mp h
    obtain ⟨others, ho, h⟩ := bind_eq_ok.mp h
    cases h
    intro child hc
    rcases mem_append.mp hc with hc | hc
    · obtain rfl := mem_toList.mp hc
      exact (lowered_of_markupOf? hf (hl _ (.head _))).1
    · exact lowered_of_childrenOf ho (fun part hp => hl part (.tail _ hp)) child hc
termination_by sizeOf content

theorem lowered_of_callbackOf? {node : Node} {template : Template} (h : callbackOf? source node = .ok (some template))
    (hl : node.Laid source) : template.Lowered := by
  unfold callbackOf? at h
  split at h
  · exact lowered_of_callbackOf? h (laid_part hl (.head _))
  · obtain ⟨found, hf, h⟩ := bind_eq_ok.mp h
    cases found with
    | some body =>
      cases h
      exact .callback (lowered_of_returnedMarkup? hf fun part hp => laid_part hl hp)
    | none => cases h
  · cases h
termination_by sizeOf node

theorem lowered_of_returnedMarkup? {isExpression : Bool} {parts : List Node} {template : Template}
    (h : returnedMarkup? source isExpression parts = .ok (some template)) (hl : ∀ part ∈ parts, part.Laid source) :
    template.Lowered := by
  unfold returnedMarkup? at h
  split at h
  · cases h
  · split at h
    · cases h
    · have hb := hl _ (.head _)
      have hr := laid_part hb (.head _)
      exact (lowered_of_markupOf? h (laid_part hr (.head _))).1
  · split at h
    · exact (lowered_of_markupOf? h (hl _ (.head _))).1
    · cases h
  · exact lowered_of_returnedMarkup? h fun part hp => hl part (.tail _ hp)
termination_by sizeOf parts

end

end

/-! ### Extraction -/

section

variable {source : List Char} {text : String} {c : Component}

theorem mem_markedOf_of_onlyClass {items : List UnitItem} {marked : MarkedClass} {name : String}
    (h : onlyClass source items = .ok (marked, name)) : marked ∈ markedOf items := by
  unfold onlyClass at h
  split at h
  · cases h
  · next first rest hm =>
    dsimp only at h
    split at h
    · cases h
    · cases h
    · cases h
    · split at h
      · cases h
        rw [hm]
        exact .head _
      · cases h

theorem laid_of_mem_classElements {node element : Node} (h : node.Laid source)
    (he : element ∈ classElements node) : element.Laid source := by
  unfold classElements at he
  split at he
  · next body hb => exact laid_part (laid_part h (mem_of_find?_eq_some hb)) he
  · cases he

theorem laid_of_renderOperand? {elements : List Node} {operand : Node}
    (he : ∀ element ∈ elements, element.Laid source) (h : renderOperand? elements = some operand) :
    operand.Laid source := by
  obtain ⟨element, hel, h⟩ := exists_of_findSome?_eq_some h
  split at h
  · split at h
    · next name span _ function hp =>
      split at h
      · split at h
        · next hb =>
          cases h
          have hf : function ∈ _ := mem_of_mem_filter (hp ▸ List.Mem.tail _ (.head _))
          have hl := laid_part (he _ hel) hf
          have hr := laid_part (laid_part hl (mem_of_find?_eq_some hb)) (.head _)
          exact laid_part hr (.head _)
        · cases h
      · cases h
    · cases h
  · cases h

/-- **A template is lowered markup.** -/
theorem lowered_of_extractComponent (h : extractComponent text = .ok c) :
    c.template.Lowered ∧ c.template.IsMarkup := by
  obtain ⟨tree, table, items, marked, name, hp, rfl, hc, h⟩ := exists_componentOf_of_extractComponent h
  obtain ⟨roles, bare, operand, template, -, -, -, -, ho, hr, -, rfl⟩ := componentOf_eq_ok h
  obtain ⟨statement, hs, hm⟩ := exists_statement_of_mem_markedOf (mem_markedOf_of_onlyClass hc)
  obtain ⟨node, hn, hm⟩ := bind_eq_some_iff.mp hm
  obtain ⟨rfl, -⟩ := markedClass?_eq_some hm
  have hl := (classOf?_laid hn (laid_part (parse?_laid hp) hs)).1
  unfold rootOf at hr
  obtain ⟨found, hf, hr⟩ := bind_eq_ok.mp hr
  cases found with
  | none => cases hr
  | some node =>
    cases hr
    refine lowered_of_markupOf? hf (laid_of_renderOperand? ?_ ho)
    exact fun element => laid_of_mem_classElements hl

end

end Polyview
