import Polyview.Backend.Layout
import Polyview.Css.Rule
import Polyview.Pipeline.Hooks

/-! # React markup

Templates as JSX. Members are variables of the component's function; elements are reached through
`current`, events are optional callbacks, and state is changed by setters. -/

namespace Polyview.React

open Script Text

def moduleName : String := "react"

def contextName (token : String) : String := token ++ "Context"

/-! ### Code -/

def resolver (c : Component) : Resolver where
  read member :=
    if c.isRef member then some (member ++ ".current")
    else if c.hasMember member then some member
    else none
  emit member args := (c.event? member).map fun _ => member ++ "?.(" ++ args ++ ")"

def updateStyle (c : Component) : UpdateStyle :=
  .setter fun member => if c.isState member then some (setterName member) else none

def adapt (c : Component) (kind : SnippetKind) (code : String) : Except Error String :=
  adaptCode code kind (updateStyle c) (resolver c)

/-! ### Markup -/

def attributeName (tag name : String) : String :=
  if isElementTag tag then
    if name == "class" then "className" else if name == "for" then "htmlFor" else name
  else name

def bracedAttribute (name code : String) : String := name ++ "=" ++ braces code

def renderAttr (tag name : String) : RenderedValue → String
  | .boolean => attributeName tag name
  | .static text =>
    if text.toList.contains '"' then bracedAttribute (attributeName tag name) (quote text)
    else attributeName tag name ++ "=\"" ++ text ++ "\""
  | .expression code => bracedAttribute (attributeName tag name) code
  | .template markup => bracedAttribute (attributeName tag name) markup

def inFragment (markup : String) : String := "<>" ++ markup ++ "</>"

def classEntry (entry : MapEntry) : String :=
  if entry.value == "true" then quote entry.key
  else "(" ++ entry.value ++ ") && " ++ quote entry.key

/-- The key of a style: custom properties stay, others are in camel case. -/
def styleKey (key : String) : String :=
  if "--".toList.isPrefixOf key.toList then quote key
  else
    let name := camelCase key
    if isIdentifier name || name.toList.head? == some '"' then name else quote name

def renderShow (parts : ShowParts) : String :=
  let fallback := match parts.fallback with
    | some markup => "(" ++ inFragment markup ++ ")"
    | none => "null"
  braces (parts.condition ++ " ? (" ++ inFragment (String.join parts.body) ++ ") : " ++ fallback)

def renderEach (parts : EachParts) : String :=
  let index := parts.index.getD "__index"
  let key := parts.key.getD index
  braces (parts.list ++ ".map((" ++ parts.item ++ ", " ++ index ++ ") => (<Fragment key=" ++
    braces key ++ ">" ++ parts.body ++ "</Fragment>))")

def renderSlot (parts : SlotParts) : String :=
  if parts.fallback.isEmpty then braces parts.prop
  else braces (parts.prop ++ " ?? " ++ inFragment (String.join parts.fallback))

def renderer (c : Component) : Renderer Workspace where
  target := .react
  script code := lift (adapt c .expression code)
  element tag attributes children := pure (elementText tag attributes children)
  selfClosing tag attributes := pure (selfClosingText tag attributes)
  fragment children := pure (inFragment (String.join children))
  attr tag name value := pure (renderAttr tag name value)
  text value := pure value
  expression code := pure (braces code)
  reference _ member := pure (bracedAttribute "ref" member)
  slot parts := pure (renderSlot parts)
  showIf parts := pure (renderShow parts)
  forEach parts := do
    importNamed "Fragment" moduleName
    return renderEach parts
  mergesStaticClass := true
  classMap tag name entries _ :=
    pure (bracedAttribute (attributeName tag name)
      ("[" ++ join ", " (entries.map classEntry) ++ "].filter(Boolean).join(\" \")"))
  styleMap _ entries _ :=
    pure (bracedAttribute "style" (braces
      (" " ++ join ", " (entries.map fun e => styleKey e.key ++ ": " ++ e.value) ++ " ")))

/-! ### Scope -/

def isControlTag (tag : String) : Bool := tag == "slot" || tag == "Show" || tag == "For"

def markScope (scope : String) : Template → Template
  | .element tag attributes children =>
    if isControlTag tag then .element tag attributes children
    else .element tag (attributes ++ [.mk scope .boolean]) children
  | .selfClosing tag attributes =>
    if isControlTag tag then .selfClosing tag attributes
    else .selfClosing tag (attributes ++ [.mk scope .boolean])
  | node => node

/-- Adds the scope attribute to the root, or to each element of a fragment at the root. -/
def withScope (scope : String) : Template → Template
  | .fragment children => .fragment (children.map (markScope scope))
  | node => markScope scope node

end Polyview.React
