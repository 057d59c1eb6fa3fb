import Polyview.Proofs.Backend.Declarations
import Polyview.Proofs.Unit.Roles

/-! # Names that a file binds

The file for a component binds names of four kinds: members, which keep their names; setters of state variables; props
for slots; and, outside of the function, the constant `styles` if the component has styles. Nothing compares them with
one another. So names of members that are distinct do not make all bound names distinct: `boundNames_nodup_iff` says
exactly when they are.

The function refers to the styles in the markup that it returns. A parameter or a declaration of the name `styles`
hides the constant there. -/

namespace Polyview.React

open List Script Text

/-! ### Bound names -/

/-- The names of constants outside of the function. -/
def moduleNames (d : Draft) : List String := if d.styles.isEmpty then [] else ["styles"]

/-- The names that the function binds: parameters and declarations. -/
def functionNames (c : Component) (all : List Declaration) : List String :=
  parameterNames c ++ slotProps c.slots ++ all.flatMap Declaration.names

/-- Members, setters, props for slots and the constant with the styles have different names. -/
structure Hygienic (c : Component) (d : Draft) : Prop where
  styles : d.styles.isEmpty = false → "styles" ∉ memberNames c ∧ "styles" ∉ slotProps c.slots
  slots : ∀ prop ∈ slotProps c.slots, prop ∉ memberNames c
  setters : ∀ setter ∈ setterNames c, setter ∉ memberNames c ∧ setter ∉ slotProps c.slots
  distinct : (setterNames c).Nodup

/-- A prop in the parameter of the function. -/
def propBinding (m : PropField) : String :=
  match m.defaultValue with
  | some value => m.name ++ " = " ++ value
  | none => m.name

/-- The parameter of the function for a component: props with their defaults, events and slots. -/
def parameterOf (c : Component) : String :=
  let params := (c.props.map propBinding ++ c.events.map EventField.name ++
    [join ", " (slotProps c.slots)]).filter fun code => !code.isEmpty
  if params.isEmpty then braces "" else braces (" " ++ join ", " params ++ " ")

/-- Markup behind the element with the styles, where there are any. -/
def styledMarkup (d : Draft) (markup : String) : String :=
  if d.styles.isEmpty then markup else inFragment ("<style>" ++ braces "styles" ++ "</style>" ++ markup)

variable {c : Component} {d : Draft}

/-! ### Where they are bound -/

theorem code_of_turns_prop {m : PropField} {emitted : Emitted PropField} (h : Turns (some propHook) c m emitted) :
    emitted.code = propBinding m := by
  obtain ⟨artifact, ⟨w, w', hr⟩, rfl⟩ := exists_artifact_of_turns h
  cases hr
  rfl

theorem code_of_turns_event {m : EventField} {emitted : Emitted EventField}
    (h : Turns (some eventHook) c m emitted) : emitted.code = m.name := by
  obtain ⟨artifact, ⟨w, w', hr⟩, rfl⟩ := exists_artifact_of_turns h
  cases hr
  rfl

theorem code_of_turns_slots {slots : List String} {emitted : Emitted (List String)}
    (h : Turns (some slotsHook) c slots emitted) :
    (emitted.artifact?.map Artifact.code).toList = [join ", " (slotProps slots)] := by
  obtain ⟨artifact, ⟨w, w', hr⟩, rfl⟩ := exists_artifact_of_turns h
  unfold slotsHook at hr
  extract_lets props at hr
  split at hr
  · next he =>
    have hn : slotProps slots = [] := List.isEmpty_iff.mp he
    cases hr
    rw [hn]
    rfl
  · obtain ⟨_, _, -, hr⟩ := run_bind_eq_ok hr
    cases hr
    rfl

theorem parameter_of_drafts (h : Drafts hooks c d) : parameter d = parameterOf c := by
  have hp := map_eq_of_forall₂ (h.props.imp fun _ _ => code_of_turns_prop)
  have he := map_eq_of_forall₂ (h.events.imp fun _ _ => code_of_turns_event)
  unfold parameter parameterOf
  rw [hp, he, code_of_turns_slots h.slots]

/-- The markup that the function returns refers to the styles, where there are any. -/
theorem template_of_drafts (h : Drafts hooks c d) :
    ∃ markup, ∃ provided : List Json, d.template.codeOnly = provided.foldl inContext (styledMarkup d markup) := by
  obtain ⟨artifact, ⟨w, w', hr⟩, ht⟩ := exists_artifact_of_turns h.template
  unfold templateHook at hr
  obtain ⟨_, _, -, hr⟩ := run_bind_eq_ok hr
  obtain ⟨markup, _, -, hr⟩ := run_bind_eq_ok hr
  obtain ⟨later, _, -, hr⟩ := run_bind_eq_ok hr
  cases hr
  refine ⟨markup, (later.scratch.list providersKey).reverse, ?_⟩
  rw [ht]
  rfl

/-- The file binds the names outside of the function as constants. -/
theorem file_eq (d : Draft) : file d = fileOf (preamble d.imports d.declarations ++
      (moduleNames d).map (fun name => "const " ++ name ++ " = `" ++ escapeTemplate d.styles ++ "`;") ++
      [propsInterface d, "export function " ++ d.name ++ "(" ++ parameter d ++ ": " ++ d.name ++ "Props) " ++
        codeBlock (join "\n\n" (statements d))]) := by
  unfold file moduleNames
  split
  · rfl
  · rfl

/-! ### Distinct names -/

theorem styles_not_mem_setterNames : "styles" ∉ setterNames c := by
  intro h
  obtain ⟨m, -, h⟩ := mem_map.mp h
  have hs := congrArg (fun name => name.toList[1]?) h
  simp [setterName] at hs

/-- The function binds its members, the setters and the props for slots, each once. -/
theorem Declared.functionNames_perm (g : Declared c) :
    (functionNames c g.all).Perm (slotProps c.slots ++ memberNames c ++ setterNames c) := by
  have hs : (c.state.flatMap fun m => [m.name, setterName m.name]).Perm
      (c.state.map StateField.name ++ setterNames c) := by
    rw [setterNames, map_eq_flatMap (f := fun m : StateField => setterName m.name)]
    exact (map_append_flatMap_perm c.state StateField.name fun m => [setterName m.name]).symm
  refine perm_iff_count.mpr fun name => ?_
  have hc := g.names_orderedComputed.count_eq name
  have hm := g.names_orderedMethods.count_eq name
  have hs := hs.count_eq name
  simp only [functionNames, parameterNames, memberNames, Declared.all, flatMap_append, g.names_leading,
    count_append] at hc hm hs ⊢
  omega

theorem nodup_slotProps (slots : List String) : (slotProps slots).Nodup := nodup_firstOccurrences _ _

/-- The names that the function binds are distinct exactly if setters and slots bring no name twice. -/
theorem Declared.functionNames_nodup_iff (g : Declared c) (hnm : (memberNames c).Nodup) :
    (functionNames c g.all).Nodup ↔ (∀ prop ∈ slotProps c.slots, prop ∉ memberNames c) ∧
      (∀ setter ∈ setterNames c, setter ∉ memberNames c ∧ setter ∉ slotProps c.slots) ∧ (setterNames c).Nodup := by
  rw [g.functionNames_perm.nodup_iff, nodup_append, nodup_append]
  simp only [nodup_slotProps, hnm, true_and, mem_append]
  constructor
  · rintro ⟨hsl, hd, hs⟩
    refine ⟨fun prop hp hm => hsl prop hp prop hm rfl, fun setter hst => ⟨?_, ?_⟩, hd⟩
    · exact fun hm => hs setter (Or.inr hm) setter hst rfl
    · exact fun hp => hs setter (Or.inl hp) setter hst rfl
  · rintro ⟨hsl, hs, hd⟩
    refine ⟨fun prop hp name hn heq => ?_, hd, fun name hn setter hst heq => ?_⟩
    · exact hsl prop hp (heq ▸ hn)
    · subst heq
      exact hn.elim (hs name hst).2 (hs name hst).1

/-- The constant with the styles is hidden exactly by a member or a prop for a slot of its name. -/
theorem Declared.styles_mem_functionNames (g : Declared c) :
    "styles" ∈ functionNames c g.all ↔ "styles" ∈ memberNames c ∨ "styles" ∈ slotProps c.slots := by
  rw [g.functionNames_perm.mem_iff, mem_append, mem_append]
  simp only [styles_not_mem_setterNames, or_false]
  exact or_comm

theorem nodup_moduleNames_append {names : List String} :
    (moduleNames d ++ names).Nodup ↔ (d.styles.isEmpty = false → "styles" ∉ names) ∧ names.Nodup := by
  unfold moduleNames
  cases d.styles.isEmpty with
  | true => simp
  | false => simp

/-- **Bound names.** Of a component, whose members have distinct names, the file binds the constant `styles` if it has
styles, and the function that uses it in its markup binds the parameters and what its statements declare. All these
names are distinct exactly if members, setters, props for slots and the constant have different names. -/
theorem boundNames_nodup_iff (hrun : hooks.run c = .ok d) (hnames : (memberNames c).Nodup) :
    ∃ all, declarations c = .ok all ∧
      statements d = all.map Declaration.text ++ (effect? d).toList ++ [returnStatement d] ∧
      parameter d = parameterOf c ∧
      (∃ markup, ∃ provided : List Json, d.template.codeOnly = provided.foldl inContext (styledMarkup d markup)) ∧
      file d = fileOf (preamble d.imports d.declarations ++
        (moduleNames d).map (fun name => "const " ++ name ++ " = `" ++ escapeTemplate d.styles ++ "`;") ++
        [propsInterface d, "export function " ++ d.name ++ "(" ++ parameter d ++ ": " ++ d.name ++ "Props) " ++
          codeBlock (join "\n\n" (statements d))]) ∧
      ((moduleNames d ++ functionNames c all).Nodup ↔ Hygienic c d) := by
  have hdr := drafts_of_run rfl hrun
  obtain ⟨all, ha, hsa⟩ := statements_of_drafts hdr
  obtain ⟨g, rfl⟩ := exists_declared ha
  refine ⟨_, ha, hsa, parameter_of_drafts hdr, template_of_drafts hdr, file_eq d, ?_⟩
  rw [nodup_moduleNames_append, g.functionNames_nodup_iff hnames, g.styles_mem_functionNames, not_or]
  constructor
  · rintro ⟨hst, hsl, hs, hd⟩
    exact ⟨hst, hsl, hs, hd⟩
  · rintro ⟨hst, hsl, hs, hd⟩
    exact ⟨hst, hsl, hs, hd⟩

/-! ### Two cards -/

/-- A card with styles, a slot and a state variable. -/
def card : Component :=
  { emptyComponent "Card" with
    styles := "p { color: red; }"
    props := [{ name := "title" }]
    state := [{ name := "open", initializer := some "false" }]
    slots := ["default"] }

/-- A card with styles and a prop of the same name. -/
def styledCard : Component :=
  { emptyComponent "Card" with
    styles := "p { color: red; }"
    props := [{ name := "styles" }] }

theorem boundNames_nodup_card :
    ∃ d all, hooks.run card = .ok d ∧ declarations card = .ok all ∧ moduleNames d = ["styles"] ∧
      (moduleNames d ++ functionNames card all).Nodup := by
  obtain ⟨d, hr, hs⟩ := exists_of_any (p := fun d => moduleNames d == ["styles"])
    (show (hooks.run card).toOption.any _ = true by decide +kernel)
  obtain ⟨all, ha, -, -, -, -, hn⟩ := boundNames_nodup_iff hr (by decide)
  refine ⟨d, all, hr, ha, beq_iff_eq.mp hs, hn.mpr ⟨fun _ => ?_, ?_, ?_, ?_⟩⟩
  · decide
  · decide
  · decide
  · decide

/-- The prop hides the constant in the markup that refers to it. -/
theorem styles_hidden_by_prop : (memberNames styledCard).Nodup ∧
      ∃ d all, hooks.run styledCard = .ok d ∧ declarations styledCard = .ok all ∧
        moduleNames d = ["styles"] ∧ parameter d = "\x7b styles \x7d" ∧ functionNames styledCard all = ["styles"] := by
  obtain ⟨d, hr, ht⟩ := exists_of_any
    (p := fun d => moduleNames d == ["styles"] && parameter d == "\x7b styles \x7d")
    (show (hooks.run styledCard).toOption.any _ = true by decide +kernel)
  rw [Bool.and_eq_true, beq_iff_eq, beq_iff_eq] at ht
  exact ⟨by decide, d, [], hr, rfl, ht.1, ht.2, by decide⟩

end Polyview.React
