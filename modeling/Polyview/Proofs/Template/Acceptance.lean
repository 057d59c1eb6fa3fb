import Polyview.Proofs.Template.Judgement

/-! # Which templates are accepted

Control forms have a grammar: `WellFormed` says it of one node. A renderer that does not fail by itself renders a
template if and only if all nodes that rendering reaches are well formed (`renderTemplate_decides`). -/

namespace Polyview

open List

/-! ### The grammar -/

/-- A node that has the parts that its tag requires. -/
structure Template.WellFormed (node : Template) : Prop where
  slot : node.tag? = some "slot" → ∀ value, node.attribute? "name" = some value → ∃ name, value = .static name
  condition : node.tag? = some "Show" → ∃ code, node.attribute? "when" = some (.expression code)
  list : node.tag? = some "For" → ∃ code, node.attribute? "each" = some (.expression code)
  callback : node.tag? = some "For" →
    ∃ params body, node.callback? = some (params, body) ∧ (params.length = 1 ∨ params.length = 2)
  /-- A callback stands as the child of a repetition only, where it is not reached as a node. -/
  standing : ∀ code params body, node ≠ .callback code params body

variable {node : Template} {shape : NodeShape} {error : Error}

theorem expressionAttribute?_eq_some {name code : String} :
    node.expressionAttribute? name = some code ↔ node.attribute? name = some (.expression code) := by
  unfold Template.expressionAttribute?
  split
  · next found hf => simp [hf]
  · next hn => exact ⟨nofun, fun h => (hn code h).elim⟩

theorem eachShape_error (h : eachShape node = .error error) : (∃ message, error = controlError message) ∧
      ((∀ code, node.attribute? "each" ≠ some (.expression code)) ∨
        ∀ params body, node.callback? = some (params, body) → params.length ≠ 1 ∧ params.length ≠ 2) := by
  unfold eachShape at h
  split at h
  · next hli =>
    cases h
    refine ⟨⟨_, rfl⟩, .inl fun code hco => ?_⟩
    rw [expressionAttribute?_eq_some.mpr hco] at hli
    cases hli
  · split at h
    · next code params body hch =>
      dsimp only at h
      split at h
      · cases h
      · cases h
      · next ho ht =>
        cases h
        refine ⟨⟨_, rfl⟩, .inr fun params' body' hc => ?_⟩
        rw [Template.callback?, hch] at hc
        cases hc
        constructor
        · intro hl
          obtain ⟨item, rfl⟩ := length_eq_one_iff.mp hl
          exact ho item rfl
        · intro hl
          obtain ⟨item, index, rfl⟩ := length_eq_two.mp hl
          exact ht item index rfl
    · next hch =>
      cases h
      refine ⟨⟨_, rfl⟩, .inr fun params body hc => ?_⟩
      unfold Template.callback? at hc
      split at hc
      · next code params' body' ho => exact (hch code params' body' ho).elim
      · cases hc

theorem wellFormed_of_shapeOf (h : shapeOf node = .ok shape) : node.WellFormed where
  slot ht value hv := by
    rw [shapeOf_slot ht, slotShape, hv] at h
    cases value with
    | static name => exact ⟨name, rfl⟩
    | _ => cases h
  condition ht := by
    rw [shapeOf_show ht] at h
    unfold showShape at h
    split at h
    · cases h
    · next code hc => exact ⟨code, expressionAttribute?_eq_some.mp hc⟩
  list ht := by
    rw [shapeOf_for ht] at h
    obtain ⟨code, -, -, -, -, hc, -⟩ := eachShape_eq_ok h
    exact ⟨code, expressionAttribute?_eq_some.mp hc⟩
  callback ht := by
    rw [shapeOf_for ht] at h
    obtain ⟨-, params, body, item, rest, -, hcb, rfl, hr, -⟩ := eachShape_eq_ok h
    refine ⟨_, body, hcb, ?_⟩
    rw [length_cons]
    omega
  standing := by
    rintro code params body rfl
    rw [shapeOf_plain ⟨by rintro ⟨⟩, by rintro ⟨⟩, by rintro ⟨⟩⟩] at h
    cases h

theorem not_wellFormed_of_shapeOf (h : shapeOf node = .error error) :
    (∃ message, error = controlError message) ∧ ¬node.WellFormed := by
  rcases node.form with ht | ht | ht | hp
  · rw [shapeOf_slot ht] at h
    unfold slotShape at h
    split at h
    · cases h
    · cases h
    · next value hs hv =>
      cases h
      refine ⟨⟨_, rfl⟩, fun hn => ?_⟩
      obtain ⟨name, rfl⟩ := hn.slot ht value hv
      exact hs name rfl
  · rw [shapeOf_show ht] at h
    unfold showShape at h
    split at h
    · next hco =>
      cases h
      refine ⟨⟨_, rfl⟩, fun hn => ?_⟩
      obtain ⟨code, hc⟩ := hn.condition ht
      rw [expressionAttribute?_eq_some.mpr hc] at hco
      cases hco
    · cases h
  · rw [shapeOf_for ht] at h
    obtain ⟨hm, hf⟩ := eachShape_error h
    refine ⟨hm, fun hn => ?_⟩
    rcases hf with hl | hcb
    · obtain ⟨code, hc⟩ := hn.list ht
      exact hl code hc
    · obtain ⟨params, body, hso, hle⟩ := hn.callback ht
      have := hcb params body hso
      omega
  · rw [shapeOf_plain hp] at h
    cases node with
    | callback code params body =>
      cases h
      exact ⟨⟨_, rfl⟩, fun hn => hn.standing code params body rfl⟩
    | _ => cases h

/-- A repetition binds the parameters of its callback. -/
theorem callback?_of_each {list item : String} {key index : Option String} {body : Template}
    (h : shapeOf node = .ok (.each list key item index body)) :
    ∃ params markup, node.callback? = some (params, markup) ∧ body = markup.withoutKey ∧
      params[0]? = some item ∧ params[1]? = index := by
  rcases node.form with ht | ht | ht | hp
  · rw [shapeOf_slot ht] at h
    unfold slotShape at h
    split at h <;> cases h
  · rw [shapeOf_show ht] at h
    unfold showShape at h
    split at h <;> cases h
  · rw [shapeOf_for ht] at h
    obtain ⟨code, params, markup, first, rest, -, hc, rfl, -, hs⟩ := eachShape_eq_ok h
    cases hs
    exact ⟨_, markup, hc, rfl, rfl, head?_eq_getElem?.symm⟩
  · rw [shapeOf_plain hp] at h
    cases node <;> cases h

/-! ### Steps that fail under one condition -/

section

variable {σ α β : Type} {x : Rendering σ α} {p q : Prop}

theorem run_bind_ok {f : α → Rendering σ β} {state middle : σ} {value : α} (h : x.run state = (.ok value, middle)) :
    (x >>= f).run state = (f value).run middle := by
  have hr := congrArg (fun result => (ExceptT.bindCont f result.1) result.2) h
  exact hr

theorem run_bind_error {f : α → Rendering σ β} {state after : σ} (h : x.run state = (.error error, after)) :
    (x >>= f).run state = (.error error, after) := by
  have hr := congrArg (fun result => (ExceptT.bindCont f result.1) result.2) h
  exact hr

/-- In every state the step succeeds if `p` holds, and fails for a control form without its parts otherwise. -/
structure Decides (x : Rendering σ α) (p : Prop) : Prop where
  ok : p → ∀ state, ∃ value after, x.run state = (.ok value, after)
  error : ¬p → ∀ state, ∃ message after, x.run state = (.error (controlError message), after)

namespace Decides

theorem congr (h : Decides x p) (hi : p ↔ q) : Decides x q :=
  ⟨fun hq => h.ok (hi.mpr hq), fun hq => h.error (mt hi.mp hq)⟩

theorem pure (value : α) : Decides (Pure.pure value : Rendering σ α) True where
  ok _ state := ⟨value, state, rfl⟩
  error h := (h trivial).elim

theorem throw (message : String) : Decides (MonadExcept.throw (controlError message) : Rendering σ α) False where
  ok h := h.elim
  error _ state := ⟨message, state, rfl⟩

theorem bind {f : α → Rendering σ β} (h : Decides x p) (hf : ∀ value, Decides (f value) q) :
    Decides (x >>= f) (p ∧ q) where
  ok hpq state := by
    obtain ⟨value, middle, hx⟩ := h.ok hpq.1 state
    rw [run_bind_ok hx]
    exact (hf value).ok hpq.2 middle
  error hpq state := by
    by_cases hp : p
    · obtain ⟨value, middle, hx⟩ := h.ok hp state
      rw [run_bind_ok hx]
      exact (hf value).error (fun hq => hpq ⟨hp, hq⟩) middle
    · obtain ⟨message, after, hx⟩ := h.error hp state
      exact ⟨message, after, run_bind_error hx⟩

end Decides

/-! ### Renderers that do not fail -/

/-- A renderer whose methods always succeed. -/
structure Renderer.NeverFails (r : Renderer σ) : Prop where
  script : ∀ code, Decides (r.script code) True
  element : ∀ tag attributes children, Decides (r.element tag attributes children) True
  selfClosing : ∀ tag attributes, Decides (r.selfClosing tag attributes) True
  fragment : ∀ children, Decides (r.fragment children) True
  attr : ∀ tag name value, Decides (r.attr tag name value) True
  text : ∀ value, Decides (r.text value) True
  expression : ∀ code, Decides (r.expression code) True
  reference : ∀ tag member, Decides (r.reference tag member) True
  slot : ∀ parts, Decides (r.slot parts) True
  showIf : ∀ parts, Decides (r.showIf parts) True
  forEach : ∀ parts, Decides (r.forEach parts) True
  classMap : ∀ tag name entries code, Decides (r.classMap tag name entries code) True
  styleMap : ∀ tag entries code, Decides (r.styleMap tag entries code) True

/-- A step decides if and only if it leaves no flaw. -/
def Judgement.decides (σ : Type) : Judgement σ σ Unit where
  Holds flaw x _ := Decides x (¬flaw ())
  pure value := (Decides.pure value).congr (by simp)
  bind h hf := (h.bind hf).congr not_or.symm

theorem Renderer.NeverFails.treats {r : Renderer σ} (hr : r.NeverFails) :
    (Judgement.decides σ).Treats (fun _ _ => False) r r where
  merges := rfl
  script code := (hr.script code).congr not_false_iff.symm
  element tag attributes children := (hr.element tag attributes children).congr not_false_iff.symm
  selfClosing tag attributes := (hr.selfClosing tag attributes).congr not_false_iff.symm
  fragment children := (hr.fragment children).congr not_false_iff.symm
  text value := (hr.text value).congr not_false_iff.symm
  expression code := (hr.expression code).congr not_false_iff.symm
  slot parts := (hr.slot parts).congr not_false_iff.symm
  showIf parts := (hr.showIf parts).congr not_false_iff.symm
  forEach parts := (hr.forEach parts).congr not_false_iff.symm
  attr tag name value := (hr.attr tag name value).congr not_false_iff.symm
  reference tag member := (hr.reference tag member).congr not_false_iff.symm
  classMap tag name entries code := (hr.classMap tag name entries code).congr not_false_iff.symm
  styleMap tag entries code := (hr.styleMap tag entries code).congr not_false_iff.symm

/-- **A template is accepted** exactly if every node that rendering reaches is well formed. -/
theorem renderTemplate_decides {r : Renderer σ} (hr : r.NeverFails) (node : Template) :
    Decides (renderTemplate r node) (∀ inner, node.Reaches inner → inner.WellFormed) := by
  have hd : Decides (renderTemplate r node) (¬∃ inner, node.Reaches inner ∧ ¬inner.WellFormed) := by
    refine renderTemplate_judged (M := fun inner _ => ¬inner.WellFormed) hr.treats ?_ ?_ node
    · intro node error hs
      obtain ⟨⟨message, rfl⟩, hn⟩ := not_wellFormed_of_shapeOf hs
      exact (Decides.throw message).congr ⟨False.elim, fun h => h ⟨node, .refl, hn⟩⟩
    · intro node shape hs _
      simp [wellFormed_of_shapeOf hs]
  exact hd.congr (by simp)

/-- **The grammar of control forms:** rendering follows its recursion to the end. With a renderer that does not fail
by itself it succeeds if and only if all nodes that it reaches are well formed, and otherwise reports a control form.
A repetition takes its item and its index from the parameters of its callback. -/
theorem template_accepted_iff (r : Renderer σ) (hr : r.NeverFails) (node : Template) (state : σ) :
    (∀ inner, renderTemplate r inner = renderNode r (renderTemplate r) inner) ∧
      ((∃ markup after, (renderTemplate r node).run state = (.ok markup, after)) ↔
        ∀ inner, node.Reaches inner → inner.WellFormed) ∧
      (∀ error after, (renderTemplate r node).run state = (.error error, after) →
        error.kind = "UnsupportedConstruct" ∧ error.code.text = "TSR304") ∧
      ∀ inner list key item index body, shapeOf inner = .ok (.each list key item index body) →
        ∃ params markup, inner.callback? = some (params, markup) ∧ body = markup.withoutKey ∧
          params[0]? = some item ∧ params[1]? = index := by
  have hd := renderTemplate_decides hr node
  refine ⟨renderTemplate_eq r, ⟨?_, fun h => hd.ok h state⟩, ?_, ?_⟩
  · rintro ⟨markup, after, ho⟩
    by_contra hf
    obtain ⟨message, after', he⟩ := hd.error hf state
    cases ho.symm.trans he
  · intro error after he
    by_cases hre : ∀ inner, node.Reaches inner → inner.WellFormed
    · obtain ⟨markup, after', ho⟩ := hd.ok hre state
      cases ho.symm.trans he
    · obtain ⟨message, after', hm⟩ := hd.error hre state
      cases hm.symm.trans he
      exact ⟨rfl, rfl⟩
  · intro inner list key item index body hs
    exact callback?_of_each hs

end

/-- A renderer that never fails and writes the code of the template only. -/
def codeRenderer : Renderer Unit where
  target := .react
  script := pure
  element _ attributes children := pure (String.join (attributes ++ children))
  selfClosing _ attributes := pure (String.join attributes)
  fragment children := pure (String.join children)
  attr _ _ value := pure (match value with
    | .expression code => code
    | .template markup => markup
    | _ => "")
  text _ := pure ""
  expression := pure
  slot parts := pure (String.join parts.fallback)
  showIf parts := pure (parts.condition ++ String.join parts.body)
  forEach parts := pure (parts.list ++ parts.body)

theorem codeRenderer_neverFails : codeRenderer.NeverFails where
  script _ := .pure _
  element _ _ _ := .pure _
  selfClosing _ _ := .pure _
  fragment _ := .pure _
  attr _ _ _ := .pure _
  text _ := .pure _
  expression _ := .pure _
  reference _ _ := .pure _
  slot _ := .pure _
  showIf _ := .pure _
  forEach _ := .pure _
  classMap _ _ _ _ := .pure _
  styleMap _ _ _ := .pure _

/-- `<For each={items}>` around its callback `(item) => <li key={key}/>`. -/
def listOf (key : AttributeValue) : Template :=
  .element "For" [.mk "each" (.expression "items")]
    [.text " ", .callback "(item) => <li/>" ["item"] (.selfClosing "li" [.mk "key" key])]

/-- A list in the fallback of a conditional is reached and accepted. -/
theorem template_accepted_list : codeRenderer.NeverFails ∧
      (∀ inner, (Template.element "Show" [.mk "when" (.expression "ready"),
        .mk "fallback" (.template (listOf (.expression "item.id")))] []).Reaches inner → inner.WellFormed) :=
  ⟨codeRenderer_neverFails,
    (template_accepted_iff codeRenderer codeRenderer_neverFails _ ()).2.1.mp ⟨"ready", (), by rfl⟩⟩

/-- **Markup in the key** of a list is no part of what is rendered: a conditional without a condition is accepted
there, although it stands in an attribute of the callback's markup. -/
theorem template_accepts_broken_key :
    (∃ body, (listOf (.template (.selfClosing "Show" []))).callback? = some (["item"], body) ∧
      .selfClosing "Show" [] ∈ body.next) ∧
      ¬(Template.selfClosing "Show" []).WellFormed ∧
      (renderTemplate codeRenderer (listOf (.template (.selfClosing "Show" [])))).run () = (.ok "items", ()) := by
  refine ⟨⟨_, rfl, ?_⟩, fun h => ?_, rfl⟩
  · rw [next_plain ⟨by decide, by decide, by decide⟩]
    exact .head _
  · obtain ⟨code, hc⟩ := h.condition rfl
    cases hc

end Polyview
