import Polyview.Source.Edit
import Polyview.Template.Markup
import Polyview.Template.Slots
import Polyview.Unit.Role

/-! # Extraction

A source unit declares exactly one class with a class marker; beside it there are only imports, interfaces
and type aliases. The unit becomes a component, or a provider class without its markers. -/

namespace Polyview

open Script Text

/-! ### Statements of a unit -/

/-- A class with a class marker. The span covers the whole statement and the decorators in front. -/
structure MarkedClass where
  node : Node
  kind : Marker
  decorator : Node
  span : Span

inductive UnitItem
  | imported (record : Import)
  | declaration (text : String)
  | marked (value : MarkedClass)
  | nothing
  | extraneous (span : Span)

def classOf? : Node → Option Node
  | .mk (.classNode true modifiers) span parts => some (.mk (.classNode true modifiers) span parts)
  | .mk (.exportNamed _) _ [.mk (.classNode isDeclaration modifiers) span parts] =>
    some (.mk (.classNode isDeclaration modifiers) span parts)
  | .mk .exportDefault _ [.mk (.classNode true modifiers) span parts] =>
    some (.mk (.classNode true modifiers) span parts)
  | _ => none

def isTypeDeclaration : Node → Bool
  | .mk .interfaceDeclaration _ _ => true
  | .mk .typeAlias _ _ => true
  | .mk (.exportNamed _) _ [.mk .interfaceDeclaration _ _] => true
  | .mk (.exportNamed _) _ [.mk .typeAlias _ _] => true
  | _ => false

def classMarker? (table : MarkerTable) (node : Node) : Option (Marker × Node) :=
  (node.parts.filter isDecorator).findSome? fun decorator =>
    match table.ofDecorator? decorator with
    | some marker => if marker.isClassMarker then some (marker, decorator) else none
    | none => none

def markedClass? (table : MarkerTable) (span : Span) (node : Node) : Option MarkedClass :=
  (classMarker? table node).map fun (kind, decorator) =>
    let starts := (node.parts.filter isDecorator).map fun d => d.span.start
    ⟨node, kind, decorator, ⟨starts.foldl min span.start, span.stop⟩⟩

/-- Adds what one part of an import binds. -/
def addImported (record : Import) : Node → Import
  | .mk (.importNamed imported typeOnly) _ parts =>
    match parts.filterMap Node.bindingName? with
    | bound :: _ => { record with named := record.named ++ [⟨imported, bound, typeOnly⟩] }
    | [] => record
  | .mk .importDefault _ parts => { record with defaultName := (parts.filterMap Node.bindingName?).head? }
  | .mk .importNamespace _ parts => { record with namespaceName := (parts.filterMap Node.bindingName?).head? }
  | _ => record

def unitItem (source : List Char) (table : MarkerTable) (statement : Node) : UnitItem :=
  match statement with
  | .mk (.importDeclaration module typeOnly) _ parts =>
    if module == markerModule then .nothing
    else .imported (parts.foldl addImported { source := module, typeOnly })
  | .mk .emptyStatement _ _ => .nothing
  | statement =>
    if isTypeDeclaration statement then .declaration (textOf source statement)
    else
      match (classOf? statement).bind (markedClass? table statement.span) with
      | some value => .marked value
      | none => .extraneous statement.span

def importsOf (items : List UnitItem) : List Import :=
  items.filterMap fun item => match item with
    | .imported record => some record
    | _ => none

def declarationsOf (items : List UnitItem) : List String :=
  items.filterMap fun item => match item with
    | .declaration text => some text
    | _ => none

def markedOf (items : List UnitItem) : List MarkedClass :=
  items.filterMap fun item => match item with
    | .marked value => some value
    | _ => none

/-- The spans of the items that do not belong into a unit. -/
def extraneousOf (items : List UnitItem) : List Span :=
  items.filterMap fun item => match item with
    | .extraneous span => some span
    | _ => none

/-! ### Options -/

def optionError (source : List Char) (span : Span) (message : String) : Error :=
  .structural .componentOptions message (Location.ofOffset? source span.start)

def literalText (source : List Char) (key : String) (value : Node) : Except Error String :=
  match value.unwrapParens with
  | .mk (.string text _) _ _ => .ok text
  | .mk .template span [] => .ok (String.ofList ((span.chars source).drop 1).dropLast)
  | .mk _ span _ => .error (optionError source span ("`" ++ key ++ "` must be a string literal"))

structure ComponentOptions where
  selector : Option String := none
  styles : String := ""

def optionEntry (source : List Char) : Node → Except Error (String × Node)
  | .mk .property span [key, value] => keyed span key value
  | .mk (.methodProperty _) span [key, value] => keyed span key value
  | .mk .shorthand _ [.mk (.reference name) span parts] => .ok (name, .mk (.reference name) span parts)
  | .mk _ span _ => .error (optionError source span "@Component options use static keys only")
where
  /-- A property with the given key. -/
  keyed (span : Span) (key value : Node) : Except Error (String × Node) :=
    match key with
    | .mk (.name text) _ _ => .ok (text, value)
    | .mk (.string text _) _ _ => .ok (text, value)
    | .mk .computedKey _ _ => .error (optionError source span "@Component options use static keys only")
    | .mk _ keySpan _ => .error (optionError source keySpan "@Component options use static keys only")

def addOption (source : List Char) (options : ComponentOptions) (property : Node) :
    Except Error ComponentOptions := do
  let (key, value) ← optionEntry source property
  if key == "selector" then return { options with selector := some (← literalText source key value) }
  else if key == "styles" then return { options with styles := ← literalText source key value }
  else return options

def componentOptions (source : List Char) (decorator : Node) : Except Error ComponentOptions :=
  match decorator.part? with
  | some (.mk (.call _) _ (_ :: rest)) =>
    match argumentsOf rest with
    | [] => .ok {}
    | first :: _ =>
      match first.unwrapParens with
      | .mk .object _ properties => properties.foldlM (addOption source) {}
      | _ => .error (optionError source first.span "@Component options must be an object literal")
  | _ => .ok {}

/-! ### Components and providers -/

def classElements (node : Node) : List Node :=
  match node.parts.find? fun part => part.shape == .classBody with
  | some body => body.parts
  | none => []

def renderOperand? (elements : List Node) : Option Node :=
  elements.findSome? fun element =>
    match element with
    | .mk (.method .method _ _) _ parts =>
      match parts.filter fun part => !isDecorator part with
      | [.mk (.name name) _ _, function] =>
        if name == renderName then
          match function.parts.find? fun part => part.shape == .body with
          | some (.mk _ _ [.mk .returnStatement _ [value]]) => some value
          | _ => none
        else none
      | _ => none
    | _ => none

def componentOf (source : List Char) (table : MarkerTable) (comments : List Comment)
    (marked : MarkedClass) (name : String) (items : List UnitItem) : Except Error Component := do
  let options ← componentOptions source marked.decorator
  let elements := classElements marked.node
  let members := elements.map (classMember source table comments)
  validateMembers name members
  let roles ← members.mapM roleOf
  let bare : Component := {
    name, selector := options.selector, styles := options.styles, template := default
    props := [], state := [], computed := [], events := [], refs := [], providers := [], injects := []
    methods := [], onInit := none, onDestroy := none, slots := []
    imports := importsOf items, declarations := declarationsOf items }
  let component := roles.foldl Component.addRole bare
  match renderOperand? elements with
  | none => throw (.structural .malformedRender "render() returns a JSX element or fragment" none)
  | some operand =>
    let template ← rootOf source operand
    checkRefs component template
    return { component with template, slots := collectSlots template }

def removal (source : List Char) (decorator : Node) : Edit :=
  let stop := decorator.span.stop
  let rest := (Span.mk stop (byteLength source)).chars source
  ⟨⟨decorator.span.start, stop + byteLength (rest.takeWhile isBlank)⟩, []⟩

/-- The provider that a class declares: its text without markers. -/
def providerOf (source : List Char) (table : MarkerTable) (marked : MarkedClass) (name : String)
    (items : List UnitItem) : ProviderClass :=
  let holders := marked.node :: classElements marked.node
  let decorators := holders.flatMap fun holder => holder.parts.filter isDecorator
  let markers := decorators.filter fun d => (table.ofDecorator? d).isSome
  { name
    source := String.ofList (splice source marked.span (markers.map (removal source)))
    imports := importsOf items
    declarations := declarationsOf items }

/-! ### Units -/

def onlyClass (source : List Char) (items : List UnitItem) : Except Error (MarkedClass × String) :=
  let located (span : Span) (code : Code) (message : String) : Error :=
    .structural code message (Location.ofOffset? source span.start)
  match markedOf items with
  | [] => .error (.structural .noComponent "no @Component or @Provider class found" none)
  | first :: rest =>
    match rest.find? fun other => other.kind != first.kind, rest, extraneousOf items with
    | some mixed, _, _ =>
      .error (located mixed.span .mixedUnit "a unit declares either a component or a provider, not both")
    | none, second :: _, _ =>
      .error (located second.span .multipleComponents
        ("found " ++ Nat.repr (rest.length + 1) ++ " @" ++ first.kind.name ++ " classes; a unit declares exactly one"))
    | none, [], span :: _ =>
      .error (located span .extraneousStatement
        "only imports, interfaces and type aliases may accompany the annotated class")
    | none, [], [] =>
      match first.node.parts.findSome? Node.bindingName? with
      | some name => .ok (first, name)
      | none => .error (located first.span .anonymousClass ("@" ++ first.kind.name ++ " class has no name"))

def extractUnit (text : String) : Except Error SourceUnit :=
  let source := text.toList
  match Script.parse? true source with
  | none => .error (.parse none none)
  | some tree => do
    let statements := tree.root.parts
    let table := MarkerTable.ofStatements statements
    let items := statements.map (unitItem source table)
    let (marked, name) ← onlyClass source items
    if marked.kind == .provider then return .provider (providerOf source table marked name items)
    else return .component (← componentOf source table tree.comments marked name items)

def extractComponent (text : String) : Except Error Component := do
  match ← extractUnit text with
  | .component component => return component
  | .provider provider =>
    throw (.structural .noComponent
      ("`" ++ provider.name ++ "` is a provider; no @Component class found") none)

end Polyview
