import Polyview.Backend.Layout
import Polyview.Pipeline.Hooks

/-! # Vue

A component becomes a file with a script, a template and styles. State and computed values are refs, so code
reads them through `value`, while the template reads all members by name. Changes in place are noticed. -/

namespace Polyview.Vue

open Script Text

def moduleName : String := "vue"

/-! ### Code -/

def emitCall (c : Component) (member args : String) : Option String :=
  (c.event? member).map fun event =>
    "emit(\"" ++ event.eventName ++ "\"" ++ (if args.isEmpty then "" else ", " ++ args) ++ ")"

def scriptResolver (c : Component) : Resolver where
  read member :=
    if c.isState member || c.isComputed member || c.isRef member then some (member ++ ".value")
    else if c.isProp member then some ("props." ++ member)
    else if c.hasMember member then some member
    else none
  emit := emitCall c

def templateResolver (c : Component) : Resolver where
  read member := if c.hasMember member then some member else none
  emit := emitCall c

def adapt (c : Component) (kind : SnippetKind) (code : String) : Except Error String :=
  resolveMembers code kind (scriptResolver c)

/-! ### Markup -/

def quoteCode (code : String) : String := "\"" ++ replaceAll "\"" "&quot;" (replaceAll "&" "&amp;" code) ++ "\""

def quoteStatic (value : String) : String := "\"" ++ replaceAll "\"" "&quot;" value ++ "\""

def renderAttr (name : String) : RenderedValue → Except Error String
  | .boolean => .ok name
  | .static text => .ok (name ++ "=" ++ quoteStatic text)
  | .expression code =>
    match eventAttribute? name with
    | some event => .ok ("@" ++ event ++ "=" ++ quoteCode code)
    | none => .ok (":" ++ name ++ "=" ++ quoteCode code)
  | .template _ => .error (.lacks .vue ("markup as the value of attribute `" ++ name ++ "`"))

def renderSlot (parts : SlotParts) : String :=
  let name := match parts.name with
    | some name => " name=" ++ quoteCode name
    | none => ""
  if parts.fallback.isEmpty then "<slot" ++ name ++ " />"
  else "<slot" ++ name ++ ">" ++ String.join parts.fallback ++ "</slot>"

def renderShow (parts : ShowParts) : String :=
  "<template v-if=" ++ quoteCode parts.condition ++ ">" ++ String.join parts.body ++ "</template>" ++
    match parts.fallback with
    | some markup => "<template v-else>" ++ markup ++ "</template>"
    | none => ""

def renderEach (parts : EachParts) : String :=
  let binders := match parts.index with
    | some index => "(" ++ parts.item ++ ", " ++ index ++ ")"
    | none => parts.item
  let key := match parts.key with
    | some key => " :key=" ++ quoteCode key
    | none => ""
  "<template v-for=" ++ quoteCode (binders ++ " in " ++ parts.list) ++ key ++ ">" ++ parts.body ++ "</template>"

def renderer (c : Component) : Renderer Workspace where
  target := .vue
  script code := lift (resolveMembers code .expression (templateResolver c))
  element tag attributes children := pure (elementText tag attributes children)
  selfClosing tag attributes := pure (selfClosingText tag attributes)
  fragment children := pure (String.join children)
  attr _ name value := lift (renderAttr (htmlAttributeName name) value)
  text value := pure value
  expression code := pure (braces (braces (" " ++ code ++ " ")))
  reference _ member := pure ("ref=\"" ++ member ++ "\"")
  slot parts := pure (renderSlot parts)
  showIf parts := pure (renderShow parts)
  forEach parts := pure (renderEach parts)
  classMap _ _ _ code := pure (":class=" ++ quoteCode code)
  styleMap _ _ code := pure (":style=" ++ quoteCode code)

/-! ### Members -/

/-- The default of a prop; a value that is no literal comes from a function. -/
def defaultEntry (name value : String) : String :=
  let value := trim value
  if (literalType value).name != "unknown" || value == "null" || value == "undefined" then
    name ++ ": " ++ value
  else if value.toList.head? == some '\x7b' then name ++ ": () => (" ++ value ++ ")"
  else name ++ ": () => " ++ value

def propHook : Hook PropField := fun _ m => do
  let code := match m.defaultValue with
    | some value => defaultEntry m.name value
    | none => ""
  return { code, declaration := some (propField m) }

def eventHook : Hook EventField := fun _ m => do
  let payload := match m.payloadType with
    | some payload => ", value: " ++ payload
    | none => ""
  return { declaration := some ("(e: \"" ++ m.eventName ++ "\"" ++ payload ++ "): void;") }

def stateHook : Hook StateField := fun c m => do
  importNamed "ref" moduleName
  let value ← match m.initializer with
    | some code => lift (adapt c .expression code)
    | none => pure ""
  let code := "const " ++ m.name ++ " = ref" ++ typeArgument m.typeText ++ "(" ++ value ++ ");"
  return { code := withComments m.comments code }

def computedHook : Hook ComputedField := fun c m => do
  importNamed "computed" moduleName
  let value ← lift (adapt c .expression m.expression)
  let code := "const " ++ m.name ++ " = computed" ++ typeArgument m.returnType ++ "(() => " ++ value ++ ");"
  return { code := withComments m.comments code }

def refHook : Hook RefField := fun _ m => do
  importNamed "ref" moduleName
  let code := "const " ++ m.name ++ " = ref" ++ nullableArgument m.typeText ++ "(null);"
  return { code := withComments m.comments code }

def providerHook : Hook ProviderField := fun c m => do
  importNamed "provide" moduleName
  let value ← lift (adapt c .expression m.initializer)
  let code := "const " ++ m.name ++ typed m.typeText ++ " = " ++ value ++ ";\nprovide(\"" ++ m.token ++
    "\", " ++ m.name ++ ");"
  return { code := withComments m.comments code }

def injectHook : Hook InjectField := fun _ m => do
  importNamed "inject" moduleName
  let code := "const " ++ m.name ++ " = inject<" ++ m.token ++ ">(\"" ++ m.token ++ "\")!;"
  return { code := withComments m.comments code }

def methodHook : Hook Method := fun c m => do
  let body ← lift (adapt c .statements m.body)
  let code := asyncMark m.isAsync ++ "function " ++ m.name ++ "(" ++ m.params ++ ")" ++
    typed m.returnType ++ " " ++ codeBlock body
  return { code := withComments m.comments code }

def lifecycleHook (call : String) : Hook Lifecycle := fun c m => do
  importNamed call moduleName
  let body ← lift (adapt c .statements m.body)
  return { code := call ++ "(" ++ asyncMark m.isAsync ++ "() => " ++ codeBlock body ++ ");" }

def templateHook (c : Component) (_ : String) (template : Template) : Hooked Artifact := do
  return { code := ← renderTemplate (renderer c) template }

def hooks : Hooks where
  prop := some propHook
  state := some stateHook
  computed := some computedHook
  event := some eventHook
  ref := some refHook
  method := some methodHook
  provider := some providerHook
  inject := some injectHook
  onInit := some (lifecycleHook "onMounted")
  onDestroy := some (lifecycleHook "onUnmounted")
  template := some templateHook

/-! ### Files -/

def propsStatement? (d : Draft) : Option String :=
  if d.props.isEmpty then none
  else
    let fields := d.props.filterMap Emitted.declaration?
    let defaults := (d.props.map Emitted.code).filter fun code => !code.isEmpty
    let define := "defineProps<" ++ codeBlock (join "\n" fields) ++ ">()"
    if defaults.isEmpty then some ("const props = " ++ define ++ ";")
    else some ("const props = withDefaults(" ++ define ++ ", " ++ codeBlock (join ",\n" defaults) ++ ");")

def emitsStatement? (d : Draft) : Option String :=
  let signatures := d.events.filterMap Emitted.declaration?
  if signatures.isEmpty then none
  else some ("const emit = defineEmits<" ++ codeBlock (join "\n" signatures) ++ ">();")

def file (d : Draft) : String :=
  let script := preamble d.imports d.declarations ++ (propsStatement? d).toList ++
    (emitsStatement? d).toList ++ d.state.map Emitted.code ++ d.refs.map Emitted.code ++
    d.injects.map Emitted.code ++ d.providers.map Emitted.code ++ d.orderedComputed.map Emitted.code ++
    d.orderedMethods.map Emitted.code ++ (d.onInit.map Emitted.code).toList ++
    (d.onDestroy.map Emitted.code).toList
  "<script setup lang=\"ts\">\n" ++ join "\n\n" script ++ "\n</script>\n\n<template>\n  " ++
    d.template.codeOnly ++ "\n</template>\n" ++
    if d.styles.isEmpty then "" else "\n<style scoped>\n" ++ d.styles ++ "\n</style>\n"

end Polyview.Vue
