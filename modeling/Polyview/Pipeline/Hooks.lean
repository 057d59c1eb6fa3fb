import Polyview.Member.Dependency
import Polyview.Pipeline.Draft
import Polyview.Text.Indentation

/-! # Hooks

A target is a table of hooks, one for each role of members and one each for slots, styles and the template.
They run over a component in a fixed order and share a workspace. Where there is no hook, the part is kept
as it is. -/

namespace Polyview

open Text

abbrev Hook (α : Type) := Component → α → Hooked Artifact

structure Hooks where
  prop : Option (Hook PropField) := none
  state : Option (Hook StateField) := none
  computed : Option (Hook ComputedField) := none
  event : Option (Hook EventField) := none
  ref : Option (Hook RefField) := none
  method : Option (Hook Method) := none
  provider : Option (Hook ProviderField) := none
  inject : Option (Hook InjectField) := none
  onInit : Option (Hook Lifecycle) := none
  onDestroy : Option (Hook Lifecycle) := none
  slots : Option (Hook (List String)) := none
  /-- Turns the styles, which are on one line. -/
  styles : Option (Component → String → Hooked String) := none
  /-- Turns the template, given the turned styles. -/
  template : Option (Component → (styles : String) → Template → Hooked Artifact) := none
  before : Option (Component → Hooked Unit) := none
  after : Option (Draft → Except Error Draft) := none

def runHook {α : Type} (hook : Option (Hook α)) (c : Component) (part : α) : Hooked (Emitted α) :=
  match hook with
  | some hook => Emitted.artifact <$> hook c part
  | none => pure (.raw part)

namespace Hooks

def draft (hooks : Hooks) (c : Component) : Hooked Draft := do
  modify fun w => { w with imports := c.imports.foldl Registrar.register w.imports }
  if let some before := hooks.before then before c
  let props ← c.props.mapM (runHook hooks.prop c)
  let state ← c.state.mapM (runHook hooks.state c)
  let computed ← c.computed.mapM (runHook hooks.computed c)
  let events ← c.events.mapM (runHook hooks.event c)
  let refs ← c.refs.mapM (runHook hooks.ref c)
  let providers ← c.providers.mapM (runHook hooks.provider c)
  let injects ← c.injects.mapM (runHook hooks.inject c)
  let methods ← c.methods.mapM (runHook hooks.method c)
  let onInit ← c.onInit.mapM (runHook hooks.onInit c)
  let onDestroy ← c.onDestroy.mapM (runHook hooks.onDestroy c)
  let slots ← runHook hooks.slots c c.slots
  let normalized := normalizeStyles c.styles
  let styles ← match hooks.styles with
    | some hook => hook c normalized
    | none => pure normalized
  let template ← runHook (hooks.template.map fun hook c => hook c styles) c c.template
  let methodOrder ← lift (orderMethods c.methods)
  let computedOrder ← lift (orderComputed c.computed)
  let w ← get
  return {
    name := c.name, selector := c.selector, props, state, computed, events, refs, providers, injects
    methods, onInit, onDestroy, slots, styles, template, methodOrder, computedOrder
    imports := w.imports, scratch := w.scratch, declarations := c.declarations }

def run (hooks : Hooks) (c : Component) : Except Error Draft := do
  let d ← ((hooks.draft c).run.run {}).1
  match hooks.after with
  | some after => after d
  | none => return d

end Hooks

end Polyview
