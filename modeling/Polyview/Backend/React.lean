import Polyview.Backend.ReactMarkup

/-! # React

A component becomes a function. State lives in hooks of the framework, computed values and methods are
memoized with the list of what they depend on, and the template is what the function returns. -/

namespace Polyview.React

open Script Text

def scopeKey : String := "react.scope"

/-- The key under which provided values are kept. -/
def providersKey : String := "react.providers"

/-! ### Dependencies -/

def reactiveScope (c : Component) : ReactiveScope where
  members := c.props.map PropField.name ++ c.state.map StateField.name ++
    c.computed.map ComputedField.name ++ c.events.map EventField.name ++
    c.providers.map ProviderField.name ++ c.injects.map InjectField.name ++ c.methods.map Method.name
  stateful := c.state.map StateField.name
  free := c.state.map fun m => setterName m.name

/-- The dependencies of a memoized member, without the member itself. -/
def dependencyList (c : Component) (own : String) (kind : SnippetKind) (code : String) :
    Except Error String := do
  let deps ← inferDependencies code kind (reactiveScope c)
  return join ", " (deps.filter fun name => name != own)

/-! ### Members -/

def propHook : Hook PropField := fun _ m => do
  let code := match m.defaultValue with
    | some value => m.name ++ " = " ++ value
    | none => m.name
  return { code, declaration := some (propField m) }

def stateHook : Hook StateField := fun c m => do
  importNamed "useState" moduleName
  let value ← match m.initializer with
    | some code => lift (adapt c .expression code)
    | none => pure ""
  let code := "const [" ++ m.name ++ ", " ++ setterName m.name ++ "] = useState" ++
    typeArgument m.typeText ++ "(" ++ value ++ ");"
  return { code := withComments m.comments code }

def computedHook : Hook ComputedField := fun c m => do
  importNamed "useMemo" moduleName
  let deps ← lift (dependencyList c m.name .expression m.expression)
  let value ← lift (adapt c .expression m.expression)
  let code := "const " ++ m.name ++ " = useMemo" ++ typeArgument m.returnType ++ "(() => " ++ value ++
    ", [" ++ deps ++ "]);"
  return { code := withComments m.comments code }

def eventHook : Hook EventField := fun _ m => do
  let signature := match m.payloadType with
    | some payload => "(value: " ++ payload ++ ") => void"
    | none => "() => void"
  return {
    code := m.name
    declaration := some (withComments m.comments (m.name ++ "?: " ++ signature ++ ";")) }

def refHook : Hook RefField := fun _ m => do
  importNamed "useRef" moduleName
  let code := "const " ++ m.name ++ " = useRef" ++ nullableArgument m.typeText ++ "(null);"
  return { code := withComments m.comments code }

/-- Imports the context of a provider class from the module of the class. -/
def importContext (c : Component) (token : String) : Hooked Unit :=
  match c.importSource? token with
  | some source => importNamed (contextName token) source
  | none => pure ()

/-- A provided value, which wraps the template in its context. -/
def providerHook : Hook ProviderField := fun c m => do
  importNamed "useMemo" moduleName
  importContext c m.token
  pushScratch providersKey (.obj [("context", .str (contextName m.token)), ("value", .str m.name)])
  let value ← lift (adapt c .expression m.initializer)
  let code := "const " ++ m.name ++ " = useMemo" ++ typeArgument m.typeText ++ "(() => " ++ value ++ ", []);"
  return { code := withComments m.comments code }

def injectHook : Hook InjectField := fun c m => do
  importNamed "useContext" moduleName
  importContext c m.token
  let code := "const " ++ m.name ++ " = useContext(" ++ contextName m.token ++ ")!;"
  return { code := withComments m.comments code }

def methodHook : Hook Method := fun c m => do
  importNamed "useCallback" moduleName
  let deps ← lift (dependencyList c m.name .statements m.body)
  let body ← lift (adapt c .statements m.body)
  let code := "const " ++ m.name ++ " = useCallback(" ++ asyncMark m.isAsync ++ "(" ++ m.params ++ ")" ++
    typed m.returnType ++ " => " ++ codeBlock body ++ ", [" ++ deps ++ "]);"
  return { code := withComments m.comments code }

def onInitHook : Hook Lifecycle := fun c m => do
  importNamed "useEffect" moduleName
  let body ← lift (adapt c .statements m.body)
  return { code := runAsync m.isAsync body }

def onDestroyHook : Hook Lifecycle := fun c m => do
  importNamed "useEffect" moduleName
  return { code := ← lift (adapt c .statements m.body) }

/-! ### Slots, styles and template -/

/-- The props that fill slots, each once. -/
def slotProps (slots : List String) : List String :=
  firstOccurrences [] (slots.map fun slot => if slot == "default" then "children" else slot)

def slotsHook : Hook (List String) := fun _ slots => do
  let props := slotProps slots
  if props.isEmpty then return {}
  importType "ReactNode" moduleName
  return {
    code := join ", " props
    declaration := some (join "\n" (props.map fun prop => prop ++ "?: ReactNode;")) }

/-- Styles apply only below the scope of the component. -/
def stylesHook (c : Component) (styles : String) : Hooked String := do
  if styles.isEmpty then return ""
  let scope := Css.scopeId c.name styles
  setScratch scopeKey (.str scope)
  return Css.scopeStyles scope styles

def inContext (markup : String) (provided : Json) : String :=
  let context := (provided.strField? "context").getD ""
  let value := (provided.strField? "value").getD ""
  "<" ++ context ++ ".Provider value=" ++ braces value ++ ">" ++ markup ++ "</" ++ context ++ ".Provider>"

/-- The template as JSX, with the styles and inside of the contexts that it provides. -/
def templateHook (c : Component) (styles : String) (template : Template) : Hooked Artifact := do
  let w ← get
  let root := match w.scratch.text? scopeKey with
    | some scope => withScope scope template
    | none => template
  let markup ← renderTemplate (renderer c) root
  let markup := if styles.isEmpty then markup
    else inFragment ("<style>" ++ braces "styles" ++ "</style>" ++ markup)
  let w ← get
  return { code := (w.scratch.list providersKey).reverse.foldl inContext markup }

def hooks : Hooks where
  prop := some propHook
  state := some stateHook
  computed := some computedHook
  event := some eventHook
  ref := some refHook
  method := some methodHook
  provider := some providerHook
  inject := some injectHook
  onInit := some onInitHook
  onDestroy := some onDestroyHook
  slots := some slotsHook
  styles := some stylesHook
  template := some templateHook

/-! ### Files -/

def effect? (d : Draft) : Option String :=
  let destroy := d.onDestroy.map fun m => "return () => " ++ codeBlock m.code ++ ";"
  let body := (d.onInit.map Emitted.code).toList ++ destroy.toList
  if body.isEmpty then none
  else some ("useEffect(() => " ++ codeBlock (join "\n" body) ++ ", []);")

def propsInterface (d : Draft) : String :=
  let fields := d.props.filterMap Emitted.declaration? ++ d.events.filterMap Emitted.declaration? ++
    d.slots.declaration?.toList
  "export interface " ++ d.name ++ "Props " ++ if fields.isEmpty then braces "" else codeBlock (join "\n" fields)

def parameter (d : Draft) : String :=
  let params := (d.props.map Emitted.code ++ d.events.map Emitted.code ++
    (d.slots.artifact?.map Artifact.code).toList).filter fun code => !code.isEmpty
  if params.isEmpty then braces "" else braces (" " ++ join ", " params ++ " ")

def statements (d : Draft) : List String :=
  d.state.map Emitted.code ++ d.refs.map Emitted.code ++ d.injects.map Emitted.code ++
    d.providers.map Emitted.code ++ d.orderedComputed.map Emitted.code ++
    d.orderedMethods.map Emitted.code ++ (effect? d).toList ++
    ["return (\n  " ++ d.template.codeOnly ++ "\n);"]

def file (d : Draft) : String :=
  let styles := if d.styles.isEmpty then []
    else ["const styles = `" ++ escapeTemplate d.styles ++ "`;"]
  let function := "export function " ++ d.name ++ "(" ++ parameter d ++ ": " ++ d.name ++ "Props) " ++
    codeBlock (join "\n\n" (statements d))
  fileOf (preamble d.imports d.declarations ++ styles ++ [propsInterface d, function])

/-- The file of a provider: its class, and the context through which it is injected. -/
def providerModule (provider : ProviderClass) : String :=
  let imports := provider.imports.foldl Registrar.register
    (Registrar.named {} "createContext" moduleName)
  providerFile imports provider
    ["export const " ++ contextName provider.name ++ " = createContext<" ++ provider.name ++ " | null>(null);"]

end Polyview.React
