import Polyview.Backend.Layout
import Polyview.Pipeline.Hooks

/-! # Svelte

A component becomes a file with a script, markup and styles. Assignments of variables are noticed; a change
below a variable is followed by an assignment of the variable to itself. -/

namespace Polyview.Svelte

open Script Text

def moduleName : String := "svelte"

/-! ### Code -/

def resolver (c : Component) : Resolver where
  read member := if c.hasMember member then some member else none
  emit member args := (c.event? member).map fun event =>
    "dispatch(\"" ++ event.eventName ++ "\"" ++ (if args.isEmpty then "" else ", " ++ args) ++ ")"

def updateStyle (c : Component) : UpdateStyle :=
  .invalidate fun member =>
    if c.isState member || c.isProp member then some ("this." ++ member ++ " = this." ++ member) else none

def adapt (c : Component) (kind : SnippetKind) (code : String) : Except Error String :=
  adaptCode code kind (updateStyle c) (resolver c)

/-! ### Markup -/

/-- A static value in quotes, in which braces are written as entities. -/
def quoteStatic (value : String) : String :=
  "\"" ++ replaceAll "\x7d" "&#125;" (replaceAll "\x7b" "&#123;" (replaceAll "\"" "&quot;" value)) ++ "\""

def renderAttr (name : String) : RenderedValue → Except Error String
  | .boolean => .ok name
  | .static text => .ok (name ++ "=" ++ quoteStatic text)
  | .expression code =>
    match eventAttribute? name with
    | some event => .ok ("on:" ++ event ++ "=" ++ braces code)
    | none => .ok (name ++ "=" ++ braces code)
  | .template _ => .error (.lacks .svelte ("markup as the value of attribute `" ++ name ++ "`"))

def renderSlot (parts : SlotParts) : String :=
  let name := match parts.name with
    | some name => " name=\"" ++ name ++ "\""
    | none => ""
  if parts.fallback.isEmpty then "<slot" ++ name ++ " />"
  else "<slot" ++ name ++ ">" ++ String.join parts.fallback ++ "</slot>"

def renderShow (parts : ShowParts) : String :=
  let fallback := match parts.fallback with
    | some markup => braces ":else" ++ markup
    | none => ""
  braces ("#if " ++ parts.condition) ++ String.join parts.body ++ fallback ++ braces "/if"

def renderEach (parts : EachParts) : String :=
  let index := match parts.index with
    | some index => ", " ++ index
    | none => ""
  let key := match parts.key with
    | some key => " (" ++ key ++ ")"
    | none => ""
  braces ("#each " ++ parts.list ++ " as " ++ parts.item ++ index ++ key) ++ parts.body ++ braces "/each"

/-- The name of a style: custom properties stay, others are in kebab case. -/
def styleName (key : String) : String := if "--".toList.isPrefixOf key.toList then key else kebabCase key

def renderer (c : Component) : Renderer Workspace where
  target := .svelte
  script code := lift (adapt c .expression code)
  element tag attributes children := pure (elementText tag attributes children)
  selfClosing tag attributes := pure (selfClosingText tag attributes)
  fragment children := pure (String.join children)
  attr _ name value := lift (renderAttr (htmlAttributeName name) value)
  text value := pure value
  expression code := pure (braces code)
  reference _ member := pure ("bind:this=" ++ braces member)
  slot parts := pure (renderSlot parts)
  showIf parts := pure (renderShow parts)
  forEach parts := pure (renderEach parts)
  classMap _ _ entries _ := pure (join " " (entries.map fun e => "class:" ++ e.key ++ "=" ++ braces e.value))
  styleMap _ entries _ := pure (join " " (entries.map fun e => "style:" ++ styleName e.key ++ "=" ++ braces e.value))

/-! ### Members -/

def propHook : Hook PropField := fun c m => do
  let code ← match m.defaultValue, m.optional, m.typeText with
    | some value, _, type => do
      let value ← lift (adapt c .expression value)
      pure ("export let " ++ m.name ++ typed type ++ " = " ++ value ++ ";")
    | none, true, some type => pure ("export let " ++ m.name ++ ": " ++ type ++ " | undefined = undefined;")
    | none, true, none => pure ("export let " ++ m.name ++ " = undefined;")
    | none, false, type => pure ("export let " ++ m.name ++ typed type ++ ";")
  return { code := withComments m.comments code }

def stateHook : Hook StateField := fun c m => do
  let value ← match m.initializer with
    | some code => do pure (" = " ++ (← lift (adapt c .expression code)))
    | none => pure ""
  return { code := withComments m.comments ("let " ++ m.name ++ typed m.typeText ++ value ++ ";") }

def computedHook : Hook ComputedField := fun c m => do
  let value ← lift (adapt c .expression m.expression)
  let code := "let " ++ m.name ++ typed m.returnType ++ ";\n$: " ++ m.name ++ " = " ++ value ++ ";"
  return { code := withComments m.comments code }

def eventHook : Hook EventField := fun _ m => do
  importNamed "createEventDispatcher" moduleName
  return { declaration := some (m.eventName ++ ": " ++ m.payloadType.getD "null" ++ ";") }

def refHook : Hook RefField := fun _ m => do
  return { code := withComments m.comments ("let " ++ m.name ++ typed m.typeText ++ ";") }

def providerHook : Hook ProviderField := fun c m => do
  importNamed "setContext" moduleName
  let value ← lift (adapt c .expression m.initializer)
  let code := "const " ++ m.name ++ typed m.typeText ++ " = " ++ value ++ ";\nsetContext(\"" ++
    m.token ++ "\", " ++ m.name ++ ");"
  return { code := withComments m.comments code }

def injectHook : Hook InjectField := fun _ m => do
  importNamed "getContext" moduleName
  let code := "const " ++ m.name ++ " = getContext<" ++ m.token ++ ">(\"" ++ m.token ++ "\");"
  return { code := withComments m.comments code }

def methodHook : Hook Method := fun c m => do
  let body ← lift (adapt c .statements m.body)
  let code := asyncMark m.isAsync ++ "function " ++ m.name ++ "(" ++ m.params ++ ")" ++
    typed m.returnType ++ " " ++ codeBlock body
  return { code := withComments m.comments code }

def lifecycleHook (call : String) : Hook Lifecycle := fun c m => do
  importNamed call moduleName
  let body ← lift (adapt c .statements m.body)
  return { code := call ++ "(" ++ asyncMark m.isAsync ++ "() => " ++ codeBlock body ++ ");" }

def templateHook (c : Component) (_ : String) (template : Template) : Hooked Artifact := do
  return { code := ← renderTemplate (renderer c) template }

def hooks : Hooks where
  prop := some propHook
  state := some stateHook
  computed := some computedHook
  event := some eventHook
  ref := some refHook
  method := some methodHook
  provider := some providerHook
  inject := some injectHook
  onInit := some (lifecycleHook "onMount")
  onDestroy := some (lifecycleHook "onDestroy")
  template := some templateHook

/-! ### Files -/

def dispatcher? (d : Draft) : Option String :=
  let events := d.events.filterMap Emitted.declaration?
  if events.isEmpty then none
  else some ("const dispatch = createEventDispatcher<" ++ braces (" " ++ join " " events ++ " ") ++ ">();")

def file (d : Draft) : String :=
  let script := preamble d.imports d.declarations ++ d.props.map Emitted.code ++
    d.state.map Emitted.code ++ d.refs.map Emitted.code ++ (dispatcher? d).toList ++
    d.injects.map Emitted.code ++ d.providers.map Emitted.code ++ d.orderedComputed.map Emitted.code ++
    d.orderedMethods.map Emitted.code ++ (d.onInit.map Emitted.code).toList ++
    (d.onDestroy.map Emitted.code).toList
  "<script lang=\"ts\">\n" ++ join "\n\n" script ++ "\n</script>\n\n" ++ d.template.codeOnly ++ "\n" ++
    if d.styles.isEmpty then "" else "\n<style>\n" ++ d.styles ++ "\n</style>\n"

end Polyview.Svelte
