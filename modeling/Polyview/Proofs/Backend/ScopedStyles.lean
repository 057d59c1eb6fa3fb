import Polyview.Proofs.Backend.BoundNames
import Polyview.Proofs.Backend.ControlForms
import Polyview.Proofs.Backend.Frames

/-! # The elements that styles apply to

Styles are confined to elements with the scope attribute and to what is inside of them. The root of a template gets the
attribute, or each element of a fragment at the root. But fragments and control forms put nothing on the page around
what they hold, so an element deeper in the template may stand outermost as well (`Template.Surfaces`). Those below a
control form or a second fragment are not marked: `surfacing_elements_scoped_iff` says when all are. -/

namespace Polyview

open List Script Text

variable {styles : String} {w w' : Workspace}

/-! ### Outermost elements -/

/-- A node that puts nothing around what it holds: a fragment or a control form. -/
def Template.isOpen : Template → Bool
  | .fragment _ => true
  | .element tag _ _ => React.isControlTag tag
  | .selfClosing tag _ => React.isControlTag tag
  | _ => false

/-- The element can be rendered with only open nodes of the template around it. -/
inductive Template.Surfaces : Template → Template → Prop
  | here {node : Template} {tag : String} (hopen : node.isOpen = false) (htag : node.tag? = some tag)
      (helement : isElementTag tag = true) : Surfaces node node
  | inside {node child element : Template} (hopen : node.isOpen = true) (hchild : child ∈ node.next)
      (h : Surfaces child element) : Surfaces node element

/-- The children of a fragment, or else the node itself. -/
def Template.roots : Template → List Template
  | .fragment children => children
  | node => [node]

/-- A node has an attribute of the given name. -/
def Template.Has (name : String) (node : Template) : Prop := ∃ a ∈ node.attributes, a.name = name

variable {node element : Template} {tag scope : String}

theorem isControlTag_eq_false : React.isControlTag tag = false ↔ tag ≠ "slot" ∧ tag ≠ "Show" ∧ tag ≠ "For" := by
  simp [React.isControlTag, and_assoc]

theorem Template.isOpen_of_tag? (h : node.tag? = some tag) : node.isOpen = React.isControlTag tag := by
  cases node with
  | element =>
    cases h
    rfl
  | selfClosing =>
    cases h
    rfl
  | _ => cases h

theorem Template.isPlain_of_isOpen (h : node.isOpen = false) (ht : node.tag? = some tag) : node.IsPlain := by
  rw [isOpen_of_tag? ht, isControlTag_eq_false] at h
  obtain ⟨hsl, hs, hf⟩ := h
  constructor
  · simpa [ht] using hsl
  · simpa [ht] using hs
  · simpa [ht] using hf

namespace Template

theorem surfaces_of_isOpen (ho : node.isOpen) :
    node.Surfaces element ↔ ∃ child ∈ node.next, child.Surfaces element := by
  constructor
  · intro h
    cases h with
    | here hc => cases ho.symm.trans hc
    | inside _ hch h => exact ⟨_, hch, h⟩
  · rintro ⟨child, hch, h⟩
    exact .inside ho hch h

theorem Surfaces.exists_tag (h : node.Surfaces element) : ∃ tag, element.isOpen = false ∧ element.tag? = some tag := by
  induction h with
  | here ho ht => exact ⟨_, ho, ht⟩
  | inside _ _ _ ih => exact ih

theorem Surfaces.reaches (h : node.Surfaces element) : node.Reaches element := by
  induction h with
  | here => exact .refl
  | inside _ hc _ ih => exact .head hc ih

/-- Below a closed node nothing surfaces but the node itself. -/
theorem eq_of_surfaces (ho : node.isOpen = false) (h : node.Surfaces element) : element = node := by
  cases h with
  | here => rfl
  | inside hn => cases ho.symm.trans hn

theorem surfaces_iff_roots : node.Surfaces element ↔ ∃ root ∈ node.roots, root.Surfaces element := by
  cases node with
  | fragment children =>
    rw [surfaces_of_isOpen rfl, next_plain ⟨by simp [tag?], by simp [tag?], by simp [tag?]⟩]
    rfl
  | _ => simp [roots]

end Template

namespace React

theorem markScope_of_isOpen (h : node.isOpen) : markScope scope node = node := by
  cases node with
  | element tag attributes children => exact if_pos h
  | selfClosing tag attributes => exact if_pos h
  | _ => rfl

theorem markScope_element {attributes : List Attribute} {children : List Template} (h : isControlTag tag = false) :
    markScope scope (.element tag attributes children) =
      .element tag (attributes ++ [.mk scope .boolean]) children := by
  simp [markScope, h]

theorem markScope_selfClosing {attributes : List Attribute} (h : isControlTag tag = false) :
    markScope scope (.selfClosing tag attributes) = .selfClosing tag (attributes ++ [.mk scope .boolean]) := by
  simp [markScope, h]

theorem isOpen_markScope : (markScope scope node).isOpen = node.isOpen := by
  cases ho : node.isOpen with
  | true => rw [markScope_of_isOpen ho, ho]
  | false =>
    cases node with
    | element tag attributes children => rwa [markScope_element ho]
    | selfClosing tag attributes => rwa [markScope_selfClosing ho]
    | _ => exact ho

/-- Marking adds the attribute to every element that is no control form. -/
theorem mem_attributes_markScope (ho : node.isOpen = false) (ht : (markScope scope node).tag? = some tag) :
    Attribute.mk scope .boolean ∈ (markScope scope node).attributes := by
  cases node with
  | element tag attributes children =>
    rw [markScope_element ho]
    exact mem_append_right _ (.head _)
  | selfClosing tag attributes =>
    rw [markScope_selfClosing ho]
    exact mem_append_right _ (.head _)
  | _ => cases ht

theorem roots_withScope : (withScope scope node).roots = node.roots.map (markScope scope) := by
  cases node with
  | element tag attributes children =>
    change (markScope scope (.element tag attributes children)).roots = [markScope scope _]
    rw [markScope]
    split <;> rfl
  | selfClosing tag attributes =>
    change (markScope scope (.selfClosing tag attributes)).roots = [markScope scope _]
    rw [markScope]
    split <;> rfl
  | _ => rfl

/-- Every outermost element of a marked template has the attribute exactly if those below open roots have it: they are
left as they are, and all others are marked. -/
theorem forall_surfaces_withScope : (∀ element, (withScope scope node).Surfaces element → element.Has scope) ↔
    ∀ root ∈ node.roots, root.isOpen → ∀ element, root.Surfaces element → element.Has scope := by
  constructor
  · intro h root hr ho element he
    refine h element (Template.surfaces_iff_roots.mpr ⟨root, ?_, he⟩)
    rw [roots_withScope]
    exact mem_map.mpr ⟨root, hr, markScope_of_isOpen ho⟩
  · intro h element he
    obtain ⟨marked, hm, he⟩ := Template.surfaces_iff_roots.mp he
    rw [roots_withScope] at hm
    obtain ⟨root, hr, rfl⟩ := mem_map.mp hm
    cases ho : root.isOpen with
    | true =>
      rw [markScope_of_isOpen ho] at he
      exact h root hr ho element he
    | false =>
      obtain rfl := Template.eq_of_surfaces (isOpen_markScope.trans ho) he
      cases he with
      | here _ ht => exact ⟨_, mem_attributes_markScope ho ht, rfl⟩
      | inside hm => cases ho.symm.trans (isOpen_markScope.symm.trans hm)

/-! ### Their texts -/

section

variable {c : Component} {d : Draft} {markup : String}

/-- Every outermost element is written into the markup of the template. -/
theorem isInfix_of_surfaces (hs : node.Surfaces element) (h : Yields (renderTemplate (renderer c) node) markup) :
    ∃ text, Yields (renderTemplate (renderer c) element) text ∧ text.toList <:+: markup.toList :=
  hs.reaches.isInfix writes_renderer h

/-! ### Their attributes -/

theorem hexDigit_ne_sign {n : ℕ} (h : n < 16) : hexDigit n ≠ '=' := by
  revert n
  decide

/-- Scope attributes are spelled without a sign of equality. -/
theorem sign_not_mem_scopeId (component styles : String) : '=' ∉ (Css.scopeId component styles).toList := by
  rw [Css.scopeId, String.toList_append, String.toList_ofList]
  intro h
  rcases mem_append.mp h with h | h
  · revert h
    decide
  · obtain ⟨word, -, h⟩ := mem_flatMap.mp (mem_of_mem_take h)
    obtain ⟨shift, -, h⟩ := mem_map.mp h
    exact hexDigit_ne_sign (Nat.mod_lt _ (by decide)) h

/-- No attribute but the scope attribute itself takes its name in JSX. -/
theorem attributeName_eq_scopeId {name component : String} :
    attributeName tag name = Css.scopeId component styles ↔ name = Css.scopeId component styles := by
  have ho (word : String) (hw : word.toList.head? ≠ some 'd') : word ≠ Css.scopeId component styles := by
    rintro rfl
    exact hw (by simp [Css.scopeId, Css.scopeLead])
  have hcl := ho "class" (by decide)
  have hf := ho "for" (by decide)
  have hc := ho "className" (by decide)
  have hh := ho "htmlFor" (by decide)
  unfold attributeName
  split
  · split
    · next heq => simp [eq_of_beq heq, hcl, hc]
    · split
      · next heq => simp [eq_of_beq heq, hf, hh]
      · rfl
  · rfl

theorem sign_mem_bracedAttribute (name code : String) : '=' ∈ (bracedAttribute name code).toList := by
  simp [bracedAttribute]

theorem eq_boolean_of_run {render : Template → Hooked String} {value : AttributeValue}
    (h : (renderValue (renderer c) render value).run w = (.ok .boolean, w')) : value = .boolean := by
  cases value with
  | boolean => rfl
  | static text => cases h
  | expression code =>
    obtain ⟨_, -, hr⟩ := run_map_eq_ok h
    cases hr
  | objectMap entries code =>
    obtain ⟨_, -, hr⟩ := run_map_eq_ok h
    cases hr
  | template node =>
    obtain ⟨_, -, hr⟩ := run_map_eq_ok h
    cases hr

/-- Only attributes without a value are written without a sign of equality. -/
theorem eq_of_sign_not_mem {render : Template → Hooked String} {static : List MapEntry} {a : Attribute} {text : String}
    (h : Yields (renderAttribute (renderer c) render tag static a) text) (hs : '=' ∉ text.toList) :
    ∃ name, a = .mk name .boolean ∧ text = attributeName tag name := by
  obtain ⟨w, w', hr⟩ := h
  unfold renderAttribute at hr
  cases hsh : attributeShape a with
  | ref member =>
    rw [hsh] at hr
    cases hr
    exact (hs (sign_mem_bracedAttribute _ _)).elim
  | classMap name entries code =>
    rw [hsh] at hr
    obtain ⟨_, _, -, hr⟩ := run_bind_eq_ok hr
    obtain ⟨_, _, -, hr⟩ := run_bind_eq_ok hr
    cases hr
    exact (hs (sign_mem_bracedAttribute _ _)).elim
  | styleMap entries code =>
    rw [hsh] at hr
    obtain ⟨_, _, -, hr⟩ := run_bind_eq_ok hr
    obtain ⟨_, _, -, hr⟩ := run_bind_eq_ok hr
    cases hr
    exact (hs (sign_mem_bracedAttribute _ _)).elim
  | plain name value =>
    rw [hsh] at hr
    obtain ⟨rendered, _, hre, hr⟩ := run_bind_eq_ok hr
    cases hr
    cases rendered with
    | boolean =>
      obtain rfl := eq_boolean_of_run hre
      rcases a with ⟨_, value⟩
      obtain rfl := value_of_attributeShape hsh
      cases hsh
      exact ⟨_, rfl, rfl⟩
    | static value =>
      refine (hs ?_).elim
      rw [renderAttr]
      split
      · exact sign_mem_bracedAttribute _ _
      · simp
    | expression code => exact (hs (sign_mem_bracedAttribute _ _)).elim
    | template markup => exact (hs (sign_mem_bracedAttribute _ _)).elim

/-- The texts of the attributes that an element of the given tag is written with. -/
def AttributeTexts (c : Component) (element : Template) (tag : String) (texts : List String) : Prop :=
  List.Forall₂ (fun a text => Yields (renderAttribute (renderer c) (renderTemplate (renderer c)) tag
    (mergedEntries true element.attributes) a) text) (writtenAttributes true element.attributes) texts

/-- The scope attribute stands among the texts exactly if the element has it. -/
theorem AttributeTexts.scopeId_mem_iff {component : String} {texts : List String}
    (h : AttributeTexts c element tag texts) : Css.scopeId component styles ∈ texts ↔
      Attribute.mk (Css.scopeId component styles) .boolean ∈ element.attributes := by
  constructor
  · intro hm
    obtain ⟨a, ha, ht⟩ := exists_of_mem_right h hm
    obtain ⟨name, rfl, hn⟩ := eq_of_sign_not_mem ht (sign_not_mem_scopeId component styles)
    rw [attributeName_eq_scopeId.mp hn.symm] at ha
    exact mem_of_mem_writtenAttributes ha
  · intro hm
    obtain ⟨text, ht, w, w', hr⟩ := exists_of_mem_left h (mem_writtenAttributes hm rfl)
    cases hr
    rwa [← attributeName_eq_scopeId.mpr rfl]

/-- The text of an element starts with its tag and its attributes. -/
theorem exists_attributeTexts {text : String} (h : Yields (renderTemplate (renderer c) element) text)
    (ho : element.isOpen = false) (hta : element.tag? = some tag) :
    ∃ texts rest, text = "<" ++ tag ++ attributeList texts ++ rest ∧ AttributeTexts c element tag texts := by
  obtain ⟨shape, hs, w, w', hr⟩ := h.exists_shape
  rw [shapeOf_plain (Template.isPlain_of_isOpen ho hta)] at hs
  cases element with
  | element _ attributes children =>
    cases hta
    cases hs
    obtain ⟨texts, _, ht, hr⟩ := run_bind_eq_ok hr
    obtain ⟨inner, _, -, hr⟩ := run_bind_eq_ok hr
    cases hr
    rw [renderAttributes_eq] at ht
    refine ⟨texts, ">" ++ String.join inner ++ "</" ++ tag ++ ">", ?_, forall₂_of_run_mapM ht⟩
    simp only [elementText, String.append_assoc]
  | selfClosing _ attributes =>
    cases hta
    cases hs
    obtain ⟨texts, _, ht, hr⟩ := run_bind_eq_ok hr
    cases hr
    rw [renderAttributes_eq] at ht
    exact ⟨texts, " />", rfl, forall₂_of_run_mapM ht⟩
  | _ => cases hta

/-! ### The draft -/

/-- The scope attribute of a component. -/
def scopeOf (c : Component) : String := Css.scopeId c.name (normalizeStyles c.styles)

theorem stylesHook_eq (hs : styles ≠ "") : stylesHook c styles = (do
    setScratch scopeKey (.str (Css.scopeId c.name styles))
    return Css.scopeStyles (Css.scopeId c.name styles) styles) :=
  if_neg (by rwa [String.isEmpty_iff])

/-- The styles leave their scope in the workspace. -/
theorem run_stylesHook {turned : String}
    (h : (stylesHook c styles).run w = (.ok turned, w')) (hst : styles ≠ "") :
    turned = Css.scopeStyles (Css.scopeId c.name styles) styles ∧
      w'.scratch.text? scopeKey = some (Css.scopeId c.name styles) := by
  rw [stylesHook_eq hst] at h
  -- without names for the two texts, taking the result apart would compute them
  generalize Css.scopeId c.name styles = scope at h ⊢
  generalize Css.scopeStyles scope styles = confined at h ⊢
  obtain ⟨_, _, hs, h⟩ := run_bind_eq_ok h
  cases hs
  cases h
  exact ⟨rfl, Scratch.text?_set _ _ _⟩

theorem run_templateHook {template : Template} {artifact : Artifact}
    (h : (templateHook c styles template).run w = (.ok artifact, w')) (hs : w.scratch.text? scopeKey = some scope) :
    ∃ markup, ∃ provided : List Json, Yields (renderTemplate (renderer c) (withScope scope template)) markup ∧
      artifact.code = provided.foldl inContext (if styles.isEmpty then markup
        else inFragment ("<style>" ++ braces "styles" ++ "</style>" ++ markup)) := by
  unfold templateHook at h
  obtain ⟨_, _, hg, h⟩ := run_bind_eq_ok h
  cases hg
  simp only [hs] at h
  obtain ⟨markup, _, hm, h⟩ := run_bind_eq_ok h
  obtain ⟨later, _, -, h⟩ := run_bind_eq_ok h
  cases h
  exact ⟨markup, _, ⟨_, _, hm⟩, rfl⟩

/-- With styles, they are confined to the scope, and the template is written with the scope attribute. -/
theorem exists_markup (hr : hooks.run c = .ok d) (hst : normalizeStyles c.styles ≠ "") :
    d.styles = Css.scopeStyles (scopeOf c) (normalizeStyles c.styles) ∧ ∃ markup, ∃ provided : List Json,
      Yields (renderTemplate (renderer c) (withScope (scopeOf c) c.template)) markup ∧
      d.template.codeOnly = provided.foldl inContext (styledMarkup d markup) := by
  obtain ⟨w, hd⟩ := exists_draft_of_run rfl hr
  obtain ⟨before, middle, after, artifact, hs, hte, ha⟩ := styled_of_draft rfl rfl hd
  obtain ⟨ht, hsc⟩ := run_stylesHook hs hst
  obtain ⟨markup, provided, hm, hc⟩ := run_templateHook hte hsc
  refine ⟨ht, markup, provided, hm, ?_⟩
  rw [ha]
  exact hc

end

variable {c : Component} {d : Draft}

/-- **Styles and outermost elements:** of a component with styles, the styles are confined to the scope, and every
outermost element of the template is written into the markup, with the scope attribute if it has it. All of them have it
exactly if every outermost element below an open root, which is a control form at the root or a node of that kind in the
fragment there, has it by itself. -/
theorem surfacing_elements_scoped_iff (hrun : hooks.run c = .ok d) (hstyles : normalizeStyles c.styles ≠ "") :
    d.styles = Css.scopeStyles (scopeOf c) (normalizeStyles c.styles) ∧
      (∃ markup, ∃ provided : List Json, d.template.codeOnly = provided.foldl inContext (styledMarkup d markup) ∧
        ∀ element, (withScope (scopeOf c) c.template).Surfaces element → ∃ tag texts before behind,
          element.tag? = some tag ∧ markup = before ++ ("<" ++ tag ++ attributeList texts ++ behind) ∧
          AttributeTexts c element tag texts ∧
          (scopeOf c ∈ texts ↔ Attribute.mk (scopeOf c) .boolean ∈ element.attributes)) ∧
      ((∀ element, (withScope (scopeOf c) c.template).Surfaces element → element.Has (scopeOf c)) ↔
        ∀ root ∈ c.template.roots, root.isOpen = true →
          ∀ element, root.Surfaces element → element.Has (scopeOf c)) := by
  obtain ⟨htu, markup, provided, hm, hc⟩ := exists_markup hrun hstyles
  refine ⟨htu, ⟨markup, provided, hc, fun element he => ?_⟩, forall_surfaces_withScope⟩
  obtain ⟨text, hte, before, behind, hw⟩ := isInfix_of_surfaces he hm
  obtain ⟨tag, ho, hta⟩ := he.exists_tag
  obtain ⟨texts, rest, rfl, ht⟩ := exists_attributeTexts hte ho hta
  refine ⟨tag, texts, String.ofList before, rest ++ String.ofList behind, hta, ?_, ht, ht.scopeId_mem_iff⟩
  rw [← String.toList_inj, ← hw]
  simp

/-! ### Two notes -/

/-- A note with styles, of a paragraph and a list. -/
def listNote : Component :=
  { emptyComponent "Note" with
    styles := "p \x7b color: red; \x7d"
    template := .fragment [.element "p" [] [.text "Hi"], .element "ul" [] [.element "li" [] []]] }

/-- A note with styles that can be closed. -/
def closableNote : Component :=
  { emptyComponent "Note" with
    styles := "p \x7b color: red; \x7d"
    props := [{ name := "open" }]
    template := .element "Show" [.mk "when" (.expression "this.open")] [.element "p" [] [.text "Hi"]] }

theorem listNote_scoped : ∃ d, hooks.run listNote = .ok d ∧
    ∀ element, (withScope (scopeOf listNote) listNote.template).Surfaces element → element.Has (scopeOf listNote) := by
  obtain ⟨d, hr, -⟩ := exists_of_any (p := fun _ => true)
    (show (hooks.run listNote).toOption.any _ = true by decide +kernel)
  obtain ⟨-, -, hs⟩ := surfacing_elements_scoped_iff hr (by decide)
  refine ⟨d, hr, hs.mpr ?_⟩
  intro root hro ho
  rcases mem_pair.mp hro with rfl | rfl
  · cases ho
  · cases ho

/-- The paragraph stands outermost while the note is open, but the conditional around it keeps the attribute off it. -/
theorem closableNote_unscoped : normalizeStyles closableNote.styles ≠ "" ∧ (∃ d, hooks.run closableNote = .ok d ∧
      d.template.codeOnly = "<><style>\x7bstyles\x7d</style>\x7bopen ? (<><p>Hi</p></>) : null\x7d</>") ∧
    ∃ element, (withScope (scopeOf closableNote) closableNote.template).Surfaces element ∧
      ¬ element.Has (scopeOf closableNote) := by
  obtain ⟨d, hr, hc⟩ := exists_of_any (p := fun d => d.template.codeOnly ==
    "<><style>\x7bstyles\x7d</style>\x7bopen ? (<><p>Hi</p></>) : null\x7d</>")
    (show (hooks.run closableNote).toOption.any _ = true by decide +kernel)
  refine ⟨by decide, ⟨d, hr, beq_iff_eq.mp hc⟩, .element "p" [] [.text "Hi"], ?_, ?_⟩
  · exact .inside rfl (mem_append_left _ (.head _)) (.here rfl rfl (by decide))
  · rintro ⟨a, ha, -⟩
    cases ha

end React

end Polyview
