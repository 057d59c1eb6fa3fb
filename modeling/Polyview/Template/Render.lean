import Polyview.Template.Shape

/-! # Rendering templates

A template is rendered by handing every node to a renderer. Attributes come before children, and control
forms receive their parts already rendered. A renderer may keep a state, which also survives a failure. -/

namespace Polyview

open Text

abbrev Rendering (σ α : Type) := ExceptT Error (StateM σ) α

inductive RenderedValue
  | boolean
  | static (text : String)
  | expression (code : String)
  /-- Markup as a value. -/
  | template (markup : String)
deriving DecidableEq, Repr

structure SlotParts where
  name : Option String
  /-- The property that fills the slot: `children`, or the name in camel case. -/
  prop : String
  fallback : List String
deriving DecidableEq, Repr

structure ShowParts where
  condition : String
  body : List String
  fallback : Option String
deriving DecidableEq, Repr

structure EachParts where
  list : String
  item : String
  index : Option String
  key : Option String
  body : String
deriving DecidableEq, Repr

/-- How a target writes the nodes of a template. What has a default is written through other methods or
is a feature that the target lacks. -/
structure Renderer (σ : Type) where
  target : Target
  script : String → Rendering σ String
  element : (tag : String) → (attributes children : List String) → Rendering σ String
  selfClosing : (tag : String) → (attributes : List String) → Rendering σ String
  fragment : (children : List String) → Rendering σ String
  attr : (tag name : String) → RenderedValue → Rendering σ String
  text : String → Rendering σ String
  expression : String → Rendering σ String
  reference : (tag member : String) → Rendering σ String := fun tag member => attr tag "ref" (.expression member)
  slot : SlotParts → Rendering σ String := fun _ => throw (Error.lacks target "slots")
  showIf : ShowParts → Rendering σ String := fun _ => throw (Error.lacks target "<Show>")
  forEach : EachParts → Rendering σ String := fun _ => throw (Error.lacks target "<For>")
  /-- Whether static classes beside a class map become entries of the map. -/
  mergesStaticClass : Bool := false
  classMap : (tag name : String) → List MapEntry → (code : String) → Rendering σ String :=
    fun tag name _ code => attr tag name (.expression code)
  styleMap : (tag : String) → List MapEntry → (code : String) → Rendering σ String :=
    fun tag _ code => attr tag "style" (.expression code)

def staticClass? : Attribute → Option String
  | .mk name (.static value) => if isClassName name then some value else none
  | _ => none

def isClassMap (a : Attribute) : Bool :=
  match attributeShape a with
  | .classMap .. => true
  | _ => false

def staticEntries (attributes : List Attribute) : List MapEntry :=
  (attributes.filterMap staticClass?).flatMap fun value => (words value).map fun word => ⟨word, "true"⟩

section

variable {σ : Type} (r : Renderer σ)

def renderEntries (entries : List MapEntry) : Rendering σ (List MapEntry) :=
  entries.mapM fun entry => do
    let value ← r.script entry.value
    pure ⟨entry.key, value⟩

def renderValue (render : Template → Rendering σ String) : AttributeValue → Rendering σ RenderedValue
  | .boolean => pure .boolean
  | .static text => pure (.static text)
  | .expression code => RenderedValue.expression <$> r.script code
  | .objectMap _ code => RenderedValue.expression <$> r.script code
  | .template node => RenderedValue.template <$> render node

def renderAttribute (render : Template → Rendering σ String) (tag : String) (static : List MapEntry)
    (a : Attribute) : Rendering σ String :=
  match attributeShape a with
  | .ref member => r.reference tag member
  | .classMap name entries code => do
    let entries ← renderEntries r entries
    let code ← r.script code
    r.classMap tag name (static ++ entries) code
  | .styleMap entries code => do
    let entries ← renderEntries r entries
    let code ← r.script code
    r.styleMap tag entries code
  | .plain name value => do
    let value ← renderValue r render value
    r.attr tag name value

def renderAttributes (render : Template → Rendering σ String) (tag : String)
    (attributes : List Attribute) : Rendering σ (List String) :=
  if attributes.any isClassMap && r.mergesStaticClass then
    (attributes.filter fun a => (staticClass? a).isNone).mapM
      (renderAttribute r render tag (staticEntries attributes))
  else attributes.mapM (renderAttribute r render tag [])

def renderFallback (render : Template → Rendering σ String) : Option AttributeValue → Rendering σ (Option String)
  | some (.template node) => some <$> render node
  | some (.static text) => some <$> r.text text
  | some (.expression code) => do some <$> r.expression (← r.script code)
  | some (.objectMap _ code) => do some <$> r.expression (← r.script code)
  | some .boolean => pure none
  | none => pure none

def renderShape (render : Template → Rendering σ String) : NodeShape → Rendering σ String
  | .element tag attributes children => do
    let attributes ← renderAttributes r render tag attributes
    let children ← children.mapM render
    r.element tag attributes children
  | .selfClosing tag attributes => do
    let attributes ← renderAttributes r render tag attributes
    r.selfClosing tag attributes
  | .fragment children => do
    let children ← children.mapM render
    r.fragment children
  | .text value => r.text value
  | .expression code => do
    let code ← r.script code
    r.expression code
  | .slot name children => do
    let fallback ← children.mapM render
    let prop := match name with
      | some name => camelCase name
      | none => "children"
    r.slot ⟨name, prop, fallback⟩
  | .conditional condition fallback children => do
    let condition ← r.script condition
    let body ← children.mapM render
    let fallback ← renderFallback r render fallback
    r.showIf ⟨condition, body, fallback⟩
  | .each list key item index body => do
    let list ← r.script list
    let key ← key.mapM r.script
    let body ← render body
    r.forEach ⟨list, item, index, key, body⟩

/-- Renders a template of depth at most `fuel`. -/
def renderWithin : Nat → Template → Rendering σ String
  | 0, _ => pure ""
  | fuel + 1, node =>
    match shapeOf node with
    | .ok shape => renderShape r (renderWithin fuel) shape
    | .error error => throw error

def renderTemplate (node : Template) : Rendering σ String := renderWithin r node.size node

end

end Polyview
