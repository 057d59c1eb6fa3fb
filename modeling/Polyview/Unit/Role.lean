import Polyview.Component.Basic
import Polyview.Text.Naming
import Polyview.Text.Replace
import Polyview.Unit.Validation

/-! # Roles of members

A validated member has exactly one role. A field or getter has the role of its marker; among methods, the
render method and the two lifecycle methods are told apart by their names. -/

namespace Polyview

open Text

inductive MemberRole
  | prop (field : PropField)
  | state (field : StateField)
  | computed (field : ComputedField)
  | event (field : EventField)
  | ref (field : RefField)
  | provide (field : ProviderField)
  | inject (field : InjectField)
  | method (method : Method)
  | onInit (method : Lifecycle)
  | onDestroy (method : Lifecycle)
  | render

/-! ### Events -/

/-- Drops a word and the blanks behind it. -/
def dropWord? (word : String) (text : List Char) : Option (List Char) := (dropLead? word.toList text).map trimStartChars

def dropSign? (sign : Char) (text : List Char) : Option (List Char) := (dropTrail? [sign] text).map trimEndChars

/-- The text between `EventEmitter<` and its end, which must not be empty. -/
def emitterPayload? (text : List Char) : Option (List Char) :=
  match (dropWord? "EventEmitter" text).bind (dropLead? ['<']) with
  | some [] => none
  | payload => payload

def payloadOfInitializer? (code : String) : Option (List Char) := do
  let text ← dropLead? "new".toList (trimChars code.toList)
  let ahead := trimStartChars text
  if ahead.length == text.length then none
  let call ← dropSign? ')' ahead
  let emitter ← dropSign? '(' call
  emitterPayload? (← dropTrail? ['>'] emitter)

def payloadOfType? (type : String) : Option (List Char) := do
  emitterPayload? (← dropTrail? ['>'] (trimChars type.toList))

def payloadType? (m : ClassMember) : Option String :=
  let payload := m.initializer.bind payloadOfInitializer? <|> m.typeText.bind payloadOfType?
  payload.map fun text => String.ofList (trimChars text)

/-- The name under which an event is dispatched: what follows `on`, with a small initial. -/
def eventNameOf (name : String) : String :=
  String.ofList (lowerFirstChars ((dropLead? "on".toList name.toList).getD name.toList))

/-! ### Classification -/

def tokenType? (m : ClassMember) : Option String :=
  match m.typeText with
  | some type => if isIdentifier type then some type else none
  | none => none

/-- A member without a usable class token. -/
def tokenError (m : ClassMember) (message : String) : Error := .member .injectionToken m.name message m.location

def injectRole (m : ClassMember) : Except Error MemberRole :=
  match tokenType? m with
  | some token => .ok (.inject { name := m.name, token, comments := m.comments, source := m.source })
  | none =>
    .error (tokenError m
      "injected members are annotated with the provider class, e.g. `store!: TodoStore`")

def provideRole (m : ClassMember) : Except Error MemberRole :=
  match m.initializer with
  | none => .error (tokenError m "provided members need an initializer")
  | some initializer =>
    match m.constructed <|> tokenType? m with
    | none =>
      .error (tokenError m
        "cannot determine the provided class; use `new X()` or annotate the member")
    | some token =>
      .ok (.provide {
        name := m.name, token, typeText := m.typeText, initializer
        comments := m.comments, source := m.source })

def methodRole (m : ClassMember) : MemberRole :=
  let parts := m.function.getD {}
  let lifecycle : Lifecycle :=
    { body := parts.body, isAsync := parts.isAsync, comments := m.comments, source := m.source }
  let method : Method :=
    { name := m.name, params := parts.params, returnType := parts.returnType, body := parts.body,
      isAsync := parts.isAsync, comments := m.comments, source := m.source }
  if m.kind != .method then .method method
  else if m.name == renderName then .render
  else if m.name == "onInit" then .onInit lifecycle
  else if m.name == "onDestroy" then .onDestroy lifecycle
  else .method method

def roleOf (m : ClassMember) : Except Error MemberRole :=
  match m.marker? with
  | some .prop =>
    .ok (.prop {
      name := m.name, typeText := m.typeText, defaultValue := m.initializer
      optional := m.optional || m.initializer.isSome, comments := m.comments, source := m.source })
  | some .state =>
    .ok (.state {
      name := m.name, typeText := m.typeText, initializer := m.initializer
      comments := m.comments, source := m.source })
  | some .computed =>
    let parts := m.function.getD {}
    .ok (.computed {
      name := m.name, returnType := parts.returnType, expression := parts.singleReturn.getD ""
      comments := m.comments, source := m.source })
  | some .event =>
    .ok (.event {
      name := m.name, eventName := eventNameOf m.name, payloadType := payloadType? m
      comments := m.comments, source := m.source })
  | some .ref => .ok (.ref { name := m.name, typeText := m.typeText, comments := m.comments, source := m.source })
  | some .inject => injectRole m
  | some .provide => provideRole m
  | _ => .ok (methodRole m)

/-- Adds a member to a component, behind the others of its role. -/
def Component.addRole (c : Component) : MemberRole → Component
  | .prop field => { c with props := c.props ++ [field] }
  | .state field => { c with state := c.state ++ [field] }
  | .computed field => { c with computed := c.computed ++ [field] }
  | .event field => { c with events := c.events ++ [field] }
  | .ref field => { c with refs := c.refs ++ [field] }
  | .provide field => { c with providers := c.providers ++ [field] }
  | .inject field => { c with injects := c.injects ++ [field] }
  | .method method => { c with methods := c.methods ++ [method] }
  | .onInit method => { c with onInit := some method }
  | .onDestroy method => { c with onDestroy := some method }
  | .render => c

end Polyview
