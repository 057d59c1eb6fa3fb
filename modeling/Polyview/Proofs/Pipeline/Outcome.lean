import Mathlib.Data.List.Forall2
import Polyview.Pipeline.Hooks
import Polyview.Proofs.Template.Acceptance

/-! # What a run of hooks leaves

A run that succeeds has turned every part of a component by the hook for its role, in some workspace, and has ordered
methods and computed values. `Drafts` says this of a draft, and `drafts_of_run` that every run without a last hook
leaves such a draft. -/

namespace Polyview

open Text

section

variable {σ α β : Type} {x : Rendering σ α}

theorem run_bind_eq_ok {f : α → Rendering σ β} {state after : σ} {value : β}
    (h : (x >>= f).run state = (.ok value, after)) :
    ∃ first middle, x.run state = (.ok first, middle) ∧ (f first).run middle = (.ok value, after) := by
  rcases hx : x.run state with ⟨first | first, middle⟩
  · rw [run_bind_error hx] at h
    cases h
  · rw [run_bind_ok hx] at h
    exact ⟨first, middle, rfl, h⟩

theorem run_map_eq_ok {f : α → β} {state after : σ} {value : β} (h : (f <$> x).run state = (.ok value, after)) :
    ∃ first, x.run state = (.ok first, after) ∧ value = f first := by
  rw [map_eq_pure_bind] at h
  obtain ⟨first, middle, hx, hp⟩ := run_bind_eq_ok h
  cases hp
  exact ⟨first, hx, rfl⟩

/-- A step returns a value in some state. -/
def Yields (x : Rendering σ α) (value : α) : Prop := ∃ state after, x.run state = (.ok value, after)

theorem forall₂_of_run_mapM {items : List α} {f : α → Rendering σ β} {state after : σ} {values : List β}
    (h : (items.mapM f).run state = (.ok values, after)) :
    List.Forall₂ (fun item value => Yields (f item) value) items values := by
  induction items generalizing state values with
  | nil =>
    cases h
    exact .nil
  | cons item rest ih =>
    rw [List.mapM_cons] at h
    obtain ⟨first, middle, hf, h⟩ := run_bind_eq_ok h
    obtain ⟨others, later, ho, h⟩ := run_bind_eq_ok h
    cases h
    exact .cons ⟨state, middle, hf⟩ (ih ho)

end

theorem Yields.exists_shape {σ : Type} {r : Renderer σ} {node : Template} {text : String}
    (h : Yields (renderTemplate r node) text) :
    ∃ shape, shapeOf node = .ok shape ∧ Yields (renderShape r (renderTemplate r) shape) text := by
  rw [renderTemplate_eq, renderNode] at h
  cases hs : shapeOf node with
  | ok shape =>
    rw [hs] at h
    exact ⟨shape, rfl, h⟩
  | error error =>
    rw [hs] at h
    obtain ⟨w, w', hr⟩ := h
    cases hr

variable {c : Component} {d : Draft} {hooks : Hooks}

theorem run_lift_eq_ok {α : Type} {result : Except Error α} {w w' : Workspace} {value : α}
    (h : (lift result).run w = (.ok value, w')) : result = .ok value := by
  cases result with
  | ok found =>
    cases h
    rfl
  | error error => cases h

theorem Scratch.text?_set (scratch : Scratch) (key text : String) :
    Scratch.text? (Scratch.set scratch key (.str text)) key = some text := by
  induction scratch with
  | nil => simp [Scratch.set, Scratch.text?, Scratch.get?, Json.str?]
  | cons entry rest ih =>
    rw [Scratch.set]
    split
    · simp [Scratch.text?, Scratch.get?, Json.str?]
    · next hk =>
      have hn : (key == entry.1) = false := beq_false_of_ne fun heq => hk (beq_iff_eq.mpr heq.symm)
      rw [Scratch.text?, Scratch.get?, List.lookup_cons, hn]
      exact ih

/-- A result that passes a test is a value. -/
theorem exists_of_any {α : Type} {result : Except Error α} {p : α → Bool} (h : result.toOption.any p) :
    ∃ value, result = .ok value ∧ p value := by
  cases result with
  | ok value => exact ⟨value, rfl, h⟩
  | error error => cases h

theorem eq_of_any {α : Type} [BEq α] [LawfulBEq α] {result : Except Error α} {value found : α}
    (h : result.toOption.any (· == value)) (hf : result = .ok found) : found = value := by
  rw [hf] at h
  exact beq_iff_eq.mp h

/-- A hook turns a part of a component into what stands in the draft. -/
def Turns {α : Type} (hook : Option (Hook α)) (c : Component) (part : α) (emitted : Emitted α) : Prop :=
  Yields (runHook hook c part) emitted

theorem exists_artifact_of_turns {α : Type} {hook : Hook α} {m : α} {emitted : Emitted α}
    (h : Turns (some hook) c m emitted) : ∃ artifact, Yields (hook c m) artifact ∧ emitted = .artifact artifact := by
  obtain ⟨w, w', h⟩ := h
  obtain ⟨artifact, hr, rfl⟩ := run_map_eq_ok h
  exact ⟨artifact, ⟨w, w', hr⟩, rfl⟩

/-- **A draft of a component:** its parts are those of the component, turned by the hooks. -/
structure Drafts (hooks : Hooks) (c : Component) (d : Draft) : Prop where
  props : List.Forall₂ (Turns hooks.prop c) c.props d.props
  state : List.Forall₂ (Turns hooks.state c) c.state d.state
  computed : List.Forall₂ (Turns hooks.computed c) c.computed d.computed
  events : List.Forall₂ (Turns hooks.event c) c.events d.events
  refs : List.Forall₂ (Turns hooks.ref c) c.refs d.refs
  providers : List.Forall₂ (Turns hooks.provider c) c.providers d.providers
  injects : List.Forall₂ (Turns hooks.inject c) c.injects d.injects
  methods : List.Forall₂ (Turns hooks.method c) c.methods d.methods
  slots : Turns hooks.slots c c.slots d.slots
  template : Turns (hooks.template.map fun hook c => hook c d.styles) c c.template d.template
  methodOrder : orderMethods c.methods = .ok d.methodOrder
  computedOrder : orderComputed c.computed = .ok d.computedOrder

theorem drafts_of_draft {w w' : Workspace} (h : (hooks.draft c).run w = (.ok d, w')) : Drafts hooks c d := by
  unfold Hooks.draft at h
  obtain ⟨_, _, -, h⟩ := run_bind_eq_ok h
  extract_lets normalized roles at h
  obtain ⟨w, h⟩ : ∃ w, (roles ()).run w = (.ok d, w') := by
    split at h
    · obtain ⟨_, w, -, h⟩ := run_bind_eq_ok h
      exact ⟨w, h⟩
    · exact ⟨_, h⟩
  obtain ⟨props, _, hp, h⟩ := run_bind_eq_ok h
  obtain ⟨state, _, hst, h⟩ := run_bind_eq_ok h
  obtain ⟨computed, _, hc, h⟩ := run_bind_eq_ok h
  obtain ⟨events, _, he, h⟩ := run_bind_eq_ok h
  obtain ⟨refs, _, hr, h⟩ := run_bind_eq_ok h
  obtain ⟨providers, _, hpr, h⟩ := run_bind_eq_ok h
  obtain ⟨injects, _, hi, h⟩ := run_bind_eq_ok h
  obtain ⟨methods, _, hm, h⟩ := run_bind_eq_ok h
  obtain ⟨onInit, _, -, h⟩ := run_bind_eq_ok h
  obtain ⟨onDestroy, _, -, h⟩ := run_bind_eq_ok h
  obtain ⟨slots, _, hs, h⟩ := run_bind_eq_ok h
  extract_lets finish at h
  obtain ⟨styles, w, h⟩ : ∃ styles w, (finish styles).run w = (.ok d, w') := by
    split at h
    · obtain ⟨styles, w, -, h⟩ := run_bind_eq_ok h
      exact ⟨styles, w, h⟩
    · exact ⟨normalized, _, h⟩
  obtain ⟨template, _, ht, h⟩ := run_bind_eq_ok h
  obtain ⟨methodOrder, _, hmo, h⟩ := run_bind_eq_ok h
  obtain ⟨computedOrder, _, hco, h⟩ := run_bind_eq_ok h
  obtain ⟨_, _, -, h⟩ := run_bind_eq_ok h
  cases h
  exact {
    props := forall₂_of_run_mapM hp
    state := forall₂_of_run_mapM hst
    computed := forall₂_of_run_mapM hc
    events := forall₂_of_run_mapM he
    refs := forall₂_of_run_mapM hr
    providers := forall₂_of_run_mapM hpr
    injects := forall₂_of_run_mapM hi
    methods := forall₂_of_run_mapM hm
    slots := ⟨_, _, hs⟩
    template := ⟨_, _, ht⟩
    methodOrder := run_lift_eq_ok hmo
    computedOrder := run_lift_eq_ok hco }

/-- The template is turned in the workspace that the styles leave. -/
theorem styled_of_draft {styles : Component → String → Hooked String}
    {template : Component → String → Template → Hooked Artifact} {w w' : Workspace} (hs : hooks.styles = some styles)
    (hte : hooks.template = some template) (h : (hooks.draft c).run w = (.ok d, w')) :
    ∃ before middle after artifact, (styles c (normalizeStyles c.styles)).run before = (.ok d.styles, middle) ∧
      (template c d.styles c.template).run middle = (.ok artifact, after) ∧ d.template = .artifact artifact := by
  unfold Hooks.draft at h
  obtain ⟨_, _, -, h⟩ := run_bind_eq_ok h
  extract_lets normalized roles at h
  obtain ⟨w, h⟩ : ∃ w, (roles ()).run w = (.ok d, w') := by
    split at h
    · obtain ⟨_, w, -, h⟩ := run_bind_eq_ok h
      exact ⟨w, h⟩
    · exact ⟨_, h⟩
  -- the eight roles, the two hooks of the lifecycle and the slots
  iterate 11 obtain ⟨_, _, -, h⟩ := run_bind_eq_ok h
  rw [hs] at h
  obtain ⟨turned, middle, ht, h⟩ := run_bind_eq_ok h
  rw [hte] at h
  obtain ⟨emitted, _, he, h⟩ := run_bind_eq_ok h
  obtain ⟨artifact, hr, rfl⟩ := run_map_eq_ok he
  iterate 3 obtain ⟨_, _, -, h⟩ := run_bind_eq_ok h
  cases h
  exact ⟨_, middle, _, artifact, ht, hr, rfl⟩

theorem exists_draft_of_run (ha : hooks.after = none) (h : hooks.run c = .ok d) :
    ∃ w, (hooks.draft c).run {} = (.ok d, w) := by
  rcases hd : (hooks.draft c).run {} with ⟨result, w⟩
  have hr : ((hooks.draft c).run.run {}).1 = result := congrArg Prod.fst hd
  rw [Hooks.run, hr, ha] at h
  cases result with
  | error error => cases h
  | ok found =>
    cases h
    exact ⟨w, rfl⟩

/-- **A run leaves a draft** of the component. -/
theorem drafts_of_run (ha : hooks.after = none) (h : hooks.run c = .ok d) : Drafts hooks c d := by
  obtain ⟨w, hd⟩ := exists_draft_of_run ha h
  exact drafts_of_draft hd

end Polyview
