import Polyview.Backend.Layout
import Polyview.Pipeline.Hooks

/-! # Lit

A component becomes a class that is registered as a custom element under its selector. Members keep the form
`this.member`. Assignments are noticed; a change below a member is followed by a request for an update. -/

namespace Polyview.Lit

open Script Text

def moduleName : String := "lit"

def decoratorModule : String := "lit/decorators.js"

def refModule : String := "lit/directives/ref.js"

def voidElements : List String :=
  ["area", "base", "br", "col", "embed", "hr", "img", "input", "link", "meta", "source", "track", "wbr"]

/-- Attributes that are bound as properties, so that the live value changes. -/
def propertyAttributes : List String := ["value", "checked", "selected"]

def booleanAttributes : List String :=
  ["disabled", "hidden", "required", "readonly", "readOnly", "multiple", "open", "autofocus", "inert"]

/-! ### Code -/

def resolver (c : Component) : Resolver where
  read member := if c.isRef member then some ("this." ++ member ++ ".value") else none
  emit member args := (c.event? member).map fun event =>
    let detail := if args.isEmpty then "" else "detail: " ++ args ++ ", "
    "this.dispatchEvent(new CustomEvent(\"" ++ event.eventName ++ "\", " ++
      braces (" " ++ detail ++ "bubbles: true, composed: true ") ++ "))"

def updateStyle (c : Component) : UpdateStyle :=
  .invalidate fun member => if c.isState member || c.isProp member then some "this.requestUpdate()" else none

def adapt (c : Component) (kind : SnippetKind) (code : String) : Except Error String :=
  adaptCode code kind (updateStyle c) (resolver c)

/-! ### Markup -/

def elementName (tag : String) : String := if isComponentTag tag then kebabCase tag else tag

def objectLiteral (entries : List MapEntry) : String :=
  let fields := entries.map fun e => (if isIdentifier e.key then e.key else quote e.key) ++ ": " ++ e.value
  braces (" " ++ join ", " fields ++ " ")

def substitution (code : String) : String := "$" ++ braces code

def htmlLiteral (markup : String) : String := "html`" ++ markup ++ "`"

/-- An attribute whose name is that of the element's attribute. -/
def renderAttr (tag name : String) : RenderedValue → String
  | .boolean => name
  | .static text => name ++ "=\"" ++ replaceAll "\"" "&quot;" (escapeTemplate text) ++ "\""
  | .expression code =>
    match eventAttribute? name with
    | some event => "@" ++ event ++ "=" ++ substitution code
    | none =>
      if isComponentTag tag || propertyAttributes.contains name then
        "." ++ name ++ "=" ++ substitution code
      else if booleanAttributes.contains name then "?" ++ name ++ "=" ++ substitution code
      else name ++ "=" ++ substitution code
  | .template markup => "." ++ name ++ "=" ++ substitution (htmlLiteral markup)

def renderElement (tag : String) (attributes children : List String) : String :=
  elementText (elementName tag) attributes children

def renderSelfClosing (tag : String) (attributes : List String) : String :=
  if voidElements.contains tag then "<" ++ tag ++ attributeList attributes ++ ">"
  else renderElement tag attributes []

def renderSlot (parts : SlotParts) : String :=
  let name := match parts.name with
    | some name => " name=\"" ++ name ++ "\""
    | none => ""
  "<slot" ++ name ++ ">" ++ String.join parts.fallback ++ "</slot>"

def renderShow (parts : ShowParts) : Hooked String := do
  let fallback ← match parts.fallback with
    | some markup => pure (htmlLiteral markup)
    | none => do
      importNamed "nothing" moduleName
      pure "nothing"
  return substitution
    (parts.condition ++ " ? " ++ htmlLiteral (String.join parts.body) ++ " : " ++ fallback)

def renderEach (parts : EachParts) : Hooked String := do
  let params := match parts.index with
    | some index => "(" ++ parts.item ++ ", " ++ index ++ ")"
    | none => "(" ++ parts.item ++ ")"
  match parts.key with
  | some key =>
    importNamed "repeat" "lit/directives/repeat.js"
    return substitution ("repeat(" ++ parts.list ++ ", " ++ params ++ " => " ++ key ++ ", " ++ params ++
      " => " ++ htmlLiteral parts.body ++ ")")
  | none => return substitution (parts.list ++ ".map(" ++ params ++ " => " ++ htmlLiteral parts.body ++ ")")

def renderer (c : Component) : Renderer Workspace where
  target := .lit
  script code := lift (adapt c .expression code)
  element tag attributes children := pure (renderElement tag attributes children)
  selfClosing tag attributes := pure (renderSelfClosing tag attributes)
  fragment children := pure (String.join children)
  attr tag name value := pure (renderAttr tag (htmlAttributeName name) value)
  text value := pure (escapeTemplate value)
  expression code := pure (substitution code)
  reference _ member := do
    importNamed "ref" refModule
    return substitution ("ref(this." ++ member ++ ")")
  slot parts := pure (renderSlot parts)
  showIf := renderShow
  forEach := renderEach
  mergesStaticClass := true
  classMap _ _ entries _ := do
    importNamed "classMap" "lit/directives/class-map.js"
    return "class=" ++ substitution ("classMap(" ++ objectLiteral entries ++ ")")
  styleMap _ entries _ := do
    importNamed "styleMap" "lit/directives/style-map.js"
    return "style=" ++ substitution ("styleMap(" ++ objectLiteral entries ++ ")")

/-! ### Members -/

def beforeHook (c : Component) : Hooked Unit := do
  if c.selector.isNone then throw (.lacksSelector .lit)
  if !c.providers.isEmpty || !c.injects.isEmpty then throw (.lacks .lit "dependency injection")
  importNamed "LitElement" moduleName
  importNamed "html" moduleName
  importNamed "customElement" decoratorModule

def propertyOptions (type : String) : String :=
  match trim type with
  | "string" => braces " type: String "
  | "number" => braces " type: Number "
  | "boolean" => braces " type: Boolean "
  | _ => braces " attribute: false "

def propHook : Hook PropField := fun c m => do
  importNamed "property" decoratorModule
  let options := propertyOptions (propType m)
  let field ← match m.defaultValue with
    | some value => do
      let value ← lift (adapt c .expression value)
      pure (m.name ++ typed m.typeText ++ " = " ++ value ++ ";")
    | none => pure (m.name ++ (if m.optional then "?" else "!") ++ typed m.typeText ++ ";")
  return { code := withComments m.comments ("@property(" ++ options ++ ")\n" ++ field) }

def stateHook : Hook StateField := fun c m => do
  importNamed "state" decoratorModule
  let value ← match m.initializer with
    | some code => do pure (" = " ++ (← lift (adapt c .expression code)))
    | none => pure ""
  let code := "@state()\nprivate " ++ m.name ++ typed m.typeText ++ value ++ ";"
  return { code := withComments m.comments code }

def computedHook : Hook ComputedField := fun c m => do
  let value ← lift (adapt c .expression m.expression)
  let code := "get " ++ m.name ++ "()" ++ typed m.returnType ++ " " ++ braces ("\n  return " ++ value ++ ";\n")
  return { code := withComments m.comments code }

def eventHook : Hook EventField := fun _ m => do
  let payload := match m.payloadType with
    | some payload => " - detail: " ++ payload
    | none => ""
  return { declaration := some ("@fires " ++ m.eventName ++ payload) }

def refHook : Hook RefField := fun _ m => do
  importNamed "createRef" refModule
  let code := "private " ++ m.name ++ " = createRef" ++ typeArgument m.typeText ++ "();"
  return { code := withComments m.comments code }

def methodHook : Hook Method := fun c m => do
  let body ← lift (adapt c .statements m.body)
  let code := asyncMark m.isAsync ++ m.name ++ "(" ++ m.params ++ ")" ++ typed m.returnType ++ " " ++ codeBlock body
  return { code := withComments m.comments code }

/-- A lifecycle method: a method of the element that calls the inherited one first. -/
def lifecycleHook (name : String) : Hook Lifecycle := fun c m => do
  let body ← lift (adapt c .statements m.body)
  return {
    code := name ++ "() " ++ braces ("\n  super." ++ name ++ "();\n" ++ indent (runAsync m.isAsync body) "  " ++ "\n") }

def stylesHook (_ : Component) (styles : String) : Hooked String := do
  if !styles.isEmpty then importNamed "css" moduleName
  return styles

def templateHook (c : Component) (_ : String) (template : Template) : Hooked Artifact := do
  let markup ← renderTemplate (renderer c) template
  return { code := "render() " ++ braces ("\n  return " ++ htmlLiteral markup ++ ";\n") }

def hooks : Hooks where
  before := some beforeHook
  prop := some propHook
  state := some stateHook
  computed := some computedHook
  event := some eventHook
  ref := some refHook
  method := some methodHook
  onInit := some (lifecycleHook "connectedCallback")
  onDestroy := some (lifecycleHook "disconnectedCallback")
  styles := some stylesHook
  template := some templateHook

/-! ### Files -/

def members (d : Draft) : List String :=
  let styles := if d.styles.isEmpty then []
    else ["static styles = css`" ++ escapeTemplate d.styles ++ "`;"]
  styles ++ d.props.map Emitted.code ++ d.state.map Emitted.code ++ d.refs.map Emitted.code ++
    d.orderedComputed.map Emitted.code ++ d.orderedMethods.map Emitted.code ++
    (d.onInit.map Emitted.code).toList ++ (d.onDestroy.map Emitted.code).toList ++
    (d.template.artifact?.map Artifact.code).toList

def eventComment (d : Draft) : String :=
  let events := d.events.filterMap Emitted.declaration?
  if events.isEmpty then ""
  else "/**\n" ++ String.join (events.map fun event => " * " ++ event ++ "\n") ++ " */\n"

def file (d : Draft) : Except Error String :=
  match d.selector with
  | none => .error (.lacksSelector .lit)
  | some selector =>
    let classText := eventComment d ++ "@customElement(\"" ++ selector ++ "\")\nexport class " ++ d.name ++
      " extends LitElement " ++ codeBlock (join "\n\n" (members d))
    .ok (fileOf (preamble d.imports d.declarations ++ [classText]))

end Polyview.Lit
