import Polyview.Proofs.Template.Acceptance

/-! # Calls for attributes

Four methods of a renderer write attributes. A recording renderer does what a given renderer does and notes each call
of them; what a method of the given renderer calls in turn, as the defaults do, is not noted. So the record holds the
calls that rendering itself makes. They are calls for attributes of nodes that rendering reaches, and all of them if
rendering succeeds (`renderTemplate_records`). -/

namespace Polyview

open List

/-! ### Records -/

section

variable {σ α β : Type}

/-- A step that leaves the record as it is. -/
def unrecorded (x : Rendering σ α) : Rendering (σ × List AttributeCall) α :=
  ExceptT.mk fun (state, calls) =>
    let (result, after) := x.run state
    (result, after, calls)

/-- A step that stands for a call. -/
def recorded (call : AttributeCall) (x : Rendering σ α) : Rendering (σ × List AttributeCall) α :=
  ExceptT.mk fun (state, calls) =>
    let (result, after) := x.run state
    (result, after, calls ++ [call])

/-- A renderer that notes the calls for attributes. -/
def Renderer.recording (r : Renderer σ) : Renderer (σ × List AttributeCall) where
  target := r.target
  script code := unrecorded (r.script code)
  element tag attributes children := unrecorded (r.element tag attributes children)
  selfClosing tag attributes := unrecorded (r.selfClosing tag attributes)
  fragment children := unrecorded (r.fragment children)
  attr tag name value := recorded (.attr tag name) (r.attr tag name value)
  text value := unrecorded (r.text value)
  expression code := unrecorded (r.expression code)
  reference tag member := recorded (.reference tag member) (r.reference tag member)
  slot parts := unrecorded (r.slot parts)
  showIf parts := unrecorded (r.showIf parts)
  forEach parts := unrecorded (r.forEach parts)
  mergesStaticClass := r.mergesStaticClass
  classMap tag name entries code := recorded (.classMap tag name) (r.classMap tag name entries code)
  styleMap tag entries code := recorded (.styleMap tag) (r.styleMap tag entries code)

/-- `y` does what `x` does and notes only calls with a property, and all of them if it succeeds. -/
def Records (p : AttributeCall → Prop) (x : Rendering σ α) (y : Rendering (σ × List AttributeCall) α) : Prop :=
  ∀ state result after, x.run state = (result, after) → ∀ calls, ∃ new,
    y.run (state, calls) = (result, after, calls ++ new) ∧ (∀ call ∈ new, p call) ∧
      ∀ value, result = .ok value → ∀ call, p call → call ∈ new

variable {x : Rendering σ α} {y : Rendering (σ × List AttributeCall) α} {p q : AttributeCall → Prop}

namespace Records

theorem pure (value : α) :
    Records (fun _ => False) (Pure.pure value) (Pure.pure value : Rendering (σ × List AttributeCall) α) := by
  intro state result after h calls
  cases h
  exact ⟨[], by rw [append_nil]; rfl, by simp, by simp⟩

theorem throw (error : Error) : Records p (MonadExcept.throw error : Rendering σ α) (MonadExcept.throw error) := by
  intro state result after h calls
  cases h
  exact ⟨[], by rw [append_nil]; rfl, by simp, by simp⟩

theorem unrecorded (x : Rendering σ α) : Records (fun _ => False) x (unrecorded x) := by
  intro state result after h calls
  refine ⟨[], ?_, by simp, by simp⟩
  rw [append_nil]
  exact congrArg (fun outcome => (outcome.1, outcome.2, calls)) h

theorem recorded (call : AttributeCall) (x : Rendering σ α) : Records (· = call) x (recorded call x) := by
  intro state result after h calls
  refine ⟨[call], ?_, by simp, by simp⟩
  exact congrArg (fun outcome => (outcome.1, outcome.2, calls ++ [call])) h

theorem bind {f : α → Rendering σ β} {g : α → Rendering (σ × List AttributeCall) β} (h : Records p x y)
    (hf : ∀ value, Records q (f value) (g value)) : Records (fun call => p call ∨ q call) (x >>= f) (y >>= g) := by
  intro state result after hr calls
  rcases hx : x.run state with ⟨first, middle⟩
  obtain ⟨new, hy, hn, ha⟩ := h state first middle hx calls
  cases first with
  | error error =>
    -- what comes behind is not run, and then not all calls need to be there
    rw [run_bind_error hx] at hr
    cases hr
    exact ⟨new, run_bind_error hy, fun call hc => .inl (hn call hc), by simp⟩
  | ok value =>
    rw [run_bind_ok hx] at hr
    obtain ⟨later, hg, hl, hre⟩ := hf value middle result after hr (calls ++ new)
    refine ⟨new ++ later, ?_, ?_, ?_⟩
    · rw [run_bind_ok hy, hg, append_assoc]
    · intro call hc
      rcases mem_append.mp hc with hc | hc
      · exact .inl (hn call hc)
      · exact .inr (hl call hc)
    · rintro last ho call (hp | hq)
      · exact mem_append_left _ (ha value rfl call hp)
      · exact mem_append_right _ (hre last ho call hq)

end Records

/-- A step records the calls that it marks. -/
def Judgement.records (σ : Type) : Judgement σ (σ × List AttributeCall) AttributeCall where
  Holds := Records
  pure := Records.pure
  bind := Records.bind

theorem Renderer.recording_treats (r : Renderer σ) :
    (Judgement.records σ).Treats (fun call mark => mark = call) r r.recording where
  merges := rfl
  script _ := .unrecorded _
  element _ _ _ := .unrecorded _
  selfClosing _ _ := .unrecorded _
  fragment _ := .unrecorded _
  text _ := .unrecorded _
  expression _ := .unrecorded _
  slot _ := .unrecorded _
  showIf _ := .unrecorded _
  forEach _ := .unrecorded _
  attr _ _ _ := .recorded _ _
  reference _ _ := .recorded _ _
  classMap _ _ _ _ := .recorded _ _
  styleMap _ _ _ := .recorded _ _

/-- **The record of a rendering** holds only calls for attributes of nodes that it reaches, and all of them if it
succeeds. -/
theorem renderTemplate_records (r : Renderer σ) (node : Template) :
    Records (fun call => ∃ inner, node.Reaches inner ∧ call ∈ inner.calls r.mergesStaticClass) (renderTemplate r node)
      (renderTemplate r.recording node) :=
  renderTemplate_judged (M := fun inner call => call ∈ inner.calls r.mergesStaticClass) r.recording_treats
    (fun _ error _ => Records.throw error) (fun _ _ _ _ => by simp) node

end

end Polyview
