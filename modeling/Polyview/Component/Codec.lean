import Polyview.Component.Basic
import Polyview.Json

/-! # Components as JSON

Every description of a unit has a JSON form and is read back from it. Reading ignores unknown fields; a
field that may be absent may also be null. -/

namespace Polyview

/-! ### Templates -/

def MapEntry.toJson (entry : MapEntry) : Json := .obj [("key", .str entry.key), ("value", .str entry.value)]

def MapEntry.ofJson? (json : Json) : Option MapEntry := do
  let key ← json.strField? "key"
  let value ← json.strField? "value"
  pure ⟨key, value⟩

mutual
def Template.toJson : Template → Json
  | .element tag attributes children =>
    .obj [("type", .str "element"), ("tag", .str tag), ("attributes", .arr (attributesToJson attributes)),
      ("children", .arr (templatesToJson children))]
  | .selfClosing tag attributes =>
    .obj [("type", .str "self-closing-element"), ("tag", .str tag), ("attributes", .arr (attributesToJson attributes))]
  | .fragment children => .obj [("type", .str "fragment"), ("children", .arr (templatesToJson children))]
  | .text value => .obj [("type", .str "text"), ("value", .str value)]
  | .expression code => .obj [("type", .str "expression"), ("code", .str code), ("callback", .null)]
  | .callback code params body =>
    .obj [("type", .str "expression"), ("code", .str code),
      ("callback", .obj [("params", Json.ofStrings params), ("body", body.toJson)])]

def Attribute.toJson : Attribute → Json
  | .mk name value => .obj [("name", .str name), ("value", value.toJson)]

def AttributeValue.toJson : AttributeValue → Json
  | .boolean => .obj [("kind", .str "boolean")]
  | .static text => .obj [("kind", .str "static"), ("value", .str text)]
  | .expression code => .obj [("kind", .str "expression"), ("value", .str code)]
  | .objectMap entries code =>
    .obj [("kind", .str "objectMap"),
      ("value", .obj [("entries", .arr (entries.map MapEntry.toJson)), ("code", .str code)])]
  | .template node => .obj [("kind", .str "template"), ("value", node.toJson)]

def attributesToJson : List Attribute → List Json
  | [] => []
  | a :: rest => a.toJson :: attributesToJson rest

def templatesToJson : List Template → List Json
  | [] => []
  | node :: rest => node.toJson :: templatesToJson rest
end

def AttributeValue.read? (read : Json → Option Template) (json : Json) : Option AttributeValue := do
  match ← json.strField? "kind" with
  | "boolean" =>
    match json.field? "value" with
    | none | some .null => pure .boolean
    | some _ => none
  | "static" => .static <$> json.strField? "value"
  | "expression" => .expression <$> json.strField? "value"
  | "objectMap" =>
    let value ← json.field? "value"
    let entries ← value.listField? "entries" MapEntry.ofJson?
    let code ← value.strField? "code"
    pure (.objectMap entries code)
  | "template" => .template <$> (json.field? "value").bind read
  | _ => none

def Attribute.read? (read : Json → Option Template) (json : Json) : Option Attribute := do
  let name ← json.strField? "name"
  let value ← (json.field? "value").bind (AttributeValue.read? read)
  pure (.mk name value)

/-- Reads a template that holds at most `fuel` values. -/
def Template.read? : Nat → Json → Option Template
  | 0, _ => none
  | fuel + 1, json => do
    let read := Template.read? fuel
    match ← json.strField? "type" with
    | "element" =>
      let tag ← json.strField? "tag"
      let attributes ← json.listField? "attributes" (Attribute.read? read)
      let children ← json.listField? "children" read
      pure (.element tag attributes children)
    | "self-closing-element" =>
      let tag ← json.strField? "tag"
      let attributes ← json.listField? "attributes" (Attribute.read? read)
      pure (.selfClosing tag attributes)
    | "fragment" => .fragment <$> json.listField? "children" read
    | "text" => .text <$> json.strField? "value"
    | "expression" =>
      let code ← json.strField? "code"
      match json.field? "callback" with
      | none | some .null => pure (.expression code)
      | some value =>
        let params ← value.listField? "params" Json.str?
        let body ← (value.field? "body").bind read
        pure (.callback code params body)
    | _ => none

def Template.ofJson? (json : Json) : Option Template := Template.read? json.size json

def Attribute.ofJson? (json : Json) : Option Attribute := Attribute.read? Template.ofJson? json

/-! ### Imports -/

def ImportedName.toJson (entry : ImportedName) : Json :=
  .obj [("imported", .str entry.imported), ("local", .str entry.bound), ("typeOnly", .bool entry.typeOnly)]

def ImportedName.ofJson? (json : Json) : Option ImportedName := do
  let imported ← json.strField? "imported"
  let bound ← json.strField? "local"
  let typeOnly ← json.boolField? "typeOnly"
  pure ⟨imported, bound, typeOnly⟩

/-- The JSON form of an import, whose module stands under the given name. -/
def Import.toJsonAs (sourceName : String) (record : Import) : Json :=
  .obj [(sourceName, .str record.source), ("default", Json.ofOption record.defaultName),
    ("namespace", Json.ofOption record.namespaceName),
    ("named", .arr (record.named.map ImportedName.toJson)), ("typeOnly", .bool record.typeOnly)]

def Import.toJson (record : Import) : Json := record.toJsonAs "source"

def Import.ofJson? (json : Json) : Option Import := do
  let source ← json.strField? "source"
  let defaultName ← json.optionField? "default"
  let namespaceName ← json.optionField? "namespace"
  let named ← json.listField? "named" ImportedName.ofJson?
  let typeOnly ← json.boolField? "typeOnly"
  pure { source, defaultName, namespaceName, named, typeOnly }

/-! ### Members -/

def PropField.toJson (m : PropField) : Json :=
  .obj [("name", .str m.name), ("typeAnnotation", Json.ofOption m.typeText),
    ("defaultValue", Json.ofOption m.defaultValue), ("optional", .bool m.optional),
    ("comments", Json.ofStrings m.comments), ("source", .str m.source)]

def PropField.ofJson? (json : Json) : Option PropField := do
  let name ← json.strField? "name"
  let typeText ← json.optionField? "typeAnnotation"
  let defaultValue ← json.optionField? "defaultValue"
  let optional ← json.boolField? "optional"
  let comments ← json.listField? "comments" Json.str?
  let source ← json.strField? "source"
  pure { name, typeText, defaultValue, optional, comments, source }

def StateField.toJson (m : StateField) : Json :=
  .obj [("name", .str m.name), ("typeAnnotation", Json.ofOption m.typeText),
    ("initializer", Json.ofOption m.initializer), ("comments", Json.ofStrings m.comments),
    ("source", .str m.source)]

def StateField.ofJson? (json : Json) : Option StateField := do
  let name ← json.strField? "name"
  let typeText ← json.optionField? "typeAnnotation"
  let initializer ← json.optionField? "initializer"
  let comments ← json.listField? "comments" Json.str?
  let source ← json.strField? "source"
  pure { name, typeText, initializer, comments, source }

def ComputedField.toJson (m : ComputedField) : Json :=
  .obj [("name", .str m.name), ("returnType", Json.ofOption m.returnType),
    ("expression", .str m.expression), ("comments", Json.ofStrings m.comments), ("source", .str m.source)]

def ComputedField.ofJson? (json : Json) : Option ComputedField := do
  let name ← json.strField? "name"
  let returnType ← json.optionField? "returnType"
  let expression ← json.strField? "expression"
  let comments ← json.listField? "comments" Json.str?
  let source ← json.strField? "source"
  pure { name, returnType, expression, comments, source }

def EventField.toJson (m : EventField) : Json :=
  .obj [("name", .str m.name), ("eventName", .str m.eventName),
    ("payloadType", Json.ofOption m.payloadType), ("comments", Json.ofStrings m.comments),
    ("source", .str m.source)]

def EventField.ofJson? (json : Json) : Option EventField := do
  let name ← json.strField? "name"
  let eventName ← json.strField? "eventName"
  let payloadType ← json.optionField? "payloadType"
  let comments ← json.listField? "comments" Json.str?
  let source ← json.strField? "source"
  pure { name, eventName, payloadType, comments, source }

def RefField.toJson (m : RefField) : Json :=
  .obj [("name", .str m.name), ("typeAnnotation", Json.ofOption m.typeText),
    ("comments", Json.ofStrings m.comments), ("source", .str m.source)]

def RefField.ofJson? (json : Json) : Option RefField := do
  let name ← json.strField? "name"
  let typeText ← json.optionField? "typeAnnotation"
  let comments ← json.listField? "comments" Json.str?
  let source ← json.strField? "source"
  pure { name, typeText, comments, source }

def ProviderField.toJson (m : ProviderField) : Json :=
  .obj [("name", .str m.name), ("token", .str m.token),
    ("typeAnnotation", Json.ofOption m.typeText), ("initializer", .str m.initializer),
    ("comments", Json.ofStrings m.comments), ("source", .str m.source)]

def ProviderField.ofJson? (json : Json) : Option ProviderField := do
  let name ← json.strField? "name"
  let token ← json.strField? "token"
  let typeText ← json.optionField? "typeAnnotation"
  let initializer ← json.strField? "initializer"
  let comments ← json.listField? "comments" Json.str?
  let source ← json.strField? "source"
  pure { name, token, typeText, initializer, comments, source }

def InjectField.toJson (m : InjectField) : Json :=
  .obj [("name", .str m.name), ("token", .str m.token), ("comments", Json.ofStrings m.comments),
    ("source", .str m.source)]

def InjectField.ofJson? (json : Json) : Option InjectField := do
  let name ← json.strField? "name"
  let token ← json.strField? "token"
  let comments ← json.listField? "comments" Json.str?
  let source ← json.strField? "source"
  pure { name, token, comments, source }

def Method.toJson (m : Method) : Json :=
  .obj [("name", .str m.name), ("params", .str m.params), ("returnType", Json.ofOption m.returnType),
    ("body", .str m.body), ("isAsync", .bool m.isAsync), ("comments", Json.ofStrings m.comments),
    ("source", .str m.source)]

def Method.ofJson? (json : Json) : Option Method := do
  let name ← json.strField? "name"
  let params ← json.strField? "params"
  let returnType ← json.optionField? "returnType"
  let body ← json.strField? "body"
  let isAsync ← json.boolField? "isAsync"
  let comments ← json.listField? "comments" Json.str?
  let source ← json.strField? "source"
  pure { name, params, returnType, body, isAsync, comments, source }

def Lifecycle.toJson (m : Lifecycle) : Json :=
  .obj [("body", .str m.body), ("isAsync", .bool m.isAsync), ("comments", Json.ofStrings m.comments),
    ("source", .str m.source)]

def Lifecycle.ofJson? (json : Json) : Option Lifecycle := do
  let body ← json.strField? "body"
  let isAsync ← json.boolField? "isAsync"
  let comments ← json.listField? "comments" Json.str?
  let source ← json.strField? "source"
  pure { body, isAsync, comments, source }

def Lifecycle.optionToJson : Option Lifecycle → Json
  | some m => m.toJson
  | none => .null

def Lifecycle.optionField? (json : Json) (name : String) : Option (Option Lifecycle) :=
  match json.field? name with
  | none | some .null => some none
  | some value => (Lifecycle.ofJson? value).map some

/-! ### Units -/

def Component.fields (c : Component) : List (String × Json) :=
  [("name", .str c.name), ("selector", Json.ofOption c.selector), ("styles", .str c.styles),
    ("template", c.template.toJson), ("props", .arr (c.props.map PropField.toJson)),
    ("state", .arr (c.state.map StateField.toJson)),
    ("computed", .arr (c.computed.map ComputedField.toJson)),
    ("events", .arr (c.events.map EventField.toJson)), ("refs", .arr (c.refs.map RefField.toJson)),
    ("providers", .arr (c.providers.map ProviderField.toJson)),
    ("injects", .arr (c.injects.map InjectField.toJson)),
    ("methods", .arr (c.methods.map Method.toJson)), ("onInit", Lifecycle.optionToJson c.onInit),
    ("onDestroy", Lifecycle.optionToJson c.onDestroy), ("slots", Json.ofStrings c.slots),
    ("imports", .arr (c.imports.map Import.toJson)), ("declarations", Json.ofStrings c.declarations)]

def Component.toJson (c : Component) : Json := .obj c.fields

def Component.ofJson? (json : Json) : Option Component := do
  let name ← json.strField? "name"
  let selector ← json.optionField? "selector"
  let styles ← json.strField? "styles"
  let template ← (json.field? "template").bind Template.ofJson?
  let props ← json.listField? "props" PropField.ofJson?
  let state ← json.listField? "state" StateField.ofJson?
  let computed ← json.listField? "computed" ComputedField.ofJson?
  let events ← json.listField? "events" EventField.ofJson?
  let refs ← json.listField? "refs" RefField.ofJson?
  let providers ← json.listField? "providers" ProviderField.ofJson?
  let injects ← json.listField? "injects" InjectField.ofJson?
  let methods ← json.listField? "methods" Method.ofJson?
  let onInit ← Lifecycle.optionField? json "onInit"
  let onDestroy ← Lifecycle.optionField? json "onDestroy"
  let slots ← json.listField? "slots" Json.str?
  let imports ← json.listField? "imports" Import.ofJson?
  let declarations ← json.listField? "declarations" Json.str?
  pure { name, selector, styles, template, props, state, computed, events, refs, providers, injects,
         methods, onInit, onDestroy, slots, imports, declarations }

def ProviderClass.fields (p : ProviderClass) : List (String × Json) :=
  [("name", .str p.name), ("source", .str p.source), ("imports", .arr (p.imports.map Import.toJson)),
    ("declarations", Json.ofStrings p.declarations)]

def ProviderClass.ofJson? (json : Json) : Option ProviderClass := do
  let name ← json.strField? "name"
  let source ← json.strField? "source"
  let imports ← json.listField? "imports" Import.ofJson?
  let declarations ← json.listField? "declarations" Json.str?
  pure { name, source, imports, declarations }

def SourceUnit.toJson : SourceUnit → Json
  | .component c => .obj (("kind", .str "component") :: c.fields)
  | .provider p => .obj (("kind", .str "provider") :: p.fields)

def SourceUnit.ofJson? (json : Json) : Option SourceUnit := do
  match ← json.strField? "kind" with
  | "component" => .component <$> Component.ofJson? json
  | "provider" => .provider <$> ProviderClass.ofJson? json
  | _ => none

end Polyview
