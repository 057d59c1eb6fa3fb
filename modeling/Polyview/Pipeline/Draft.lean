import Polyview.Component.Codec
import Polyview.Pipeline.Workspace

/-! # Drafts

A draft is a component whose parts have been turned into pieces of code, ready to be laid out as a file. A
part that no hook has turned is still there as it was. -/

namespace Polyview

structure Artifact where
  code : String := ""
  /-- What belongs to it among the types: a field of an interface, a signature. -/
  declaration : Option String := none
deriving DecidableEq, Repr, Inhabited

inductive Emitted (α : Type)
  | raw (value : α)
  | artifact (value : Artifact)

namespace Emitted

variable {α : Type}

def artifact? : Emitted α → Option Artifact
  | .raw _ => none
  | .artifact value => some value

def declaration? (emitted : Emitted α) : Option String := emitted.artifact?.bind Artifact.declaration

def codeOnly (emitted : Emitted α) : String := (emitted.artifact?.map Artifact.code).getD ""

end Emitted

/-! ### Members -/

class HasSource (α : Type) where
  source : α → String

instance : HasSource PropField := ⟨PropField.source⟩
instance : HasSource StateField := ⟨StateField.source⟩
instance : HasSource ComputedField := ⟨ComputedField.source⟩
instance : HasSource EventField := ⟨EventField.source⟩
instance : HasSource RefField := ⟨RefField.source⟩
instance : HasSource ProviderField := ⟨ProviderField.source⟩
instance : HasSource InjectField := ⟨InjectField.source⟩
instance : HasSource Method := ⟨Method.source⟩
instance : HasSource Lifecycle := ⟨Lifecycle.source⟩

/-- The code for a member, or its text if no hook has turned it. -/
def Emitted.code {α : Type} [HasSource α] : Emitted α → String
  | .raw value => HasSource.source value
  | .artifact value => value.code

/-! ### Drafts -/

structure Draft where
  name : String
  selector : Option String
  props : List (Emitted PropField)
  state : List (Emitted StateField)
  computed : List (Emitted ComputedField)
  events : List (Emitted EventField)
  refs : List (Emitted RefField)
  providers : List (Emitted ProviderField)
  injects : List (Emitted InjectField)
  methods : List (Emitted Method)
  onInit : Option (Emitted Lifecycle)
  onDestroy : Option (Emitted Lifecycle)
  slots : Emitted (List String)
  styles : String
  template : Emitted Template
  /-- The order in which methods are written: each behind those that it calls. -/
  methodOrder : List Nat
  /-- The order in which computed values are written: each behind those that it reads. -/
  computedOrder : List Nat
  imports : Registrar
  scratch : Scratch
  declarations : List String

def Draft.orderedMethods (d : Draft) : List (Emitted Method) := d.methodOrder.filterMap fun i => d.methods[i]?

def Draft.orderedComputed (d : Draft) : List (Emitted ComputedField) :=
  d.computedOrder.filterMap fun i => d.computed[i]?

/-! ### JSON -/

def Artifact.toJson (a : Artifact) : Json := .obj [("code", .str a.code), ("declaration", Json.ofOption a.declaration)]

def Emitted.toJson {α : Type} (raw : α → Json) : Emitted α → Json
  | .raw value => .obj [("kind", .str "raw"), ("value", raw value)]
  | .artifact value => .obj [("kind", .str "artifact"), ("value", value.toJson)]

def Registrar.toJson (reg : Registrar) : Json := .obj [("modules", .arr (reg.modules.map (Import.toJsonAs "module")))]

def Json.ofNat (n : Nat) : Json := .number n 0

def Draft.toJson (d : Draft) : Json :=
  .obj [("name", .str d.name), ("selector", Json.ofOption d.selector),
    ("props", .arr (d.props.map (Emitted.toJson PropField.toJson))),
    ("state", .arr (d.state.map (Emitted.toJson StateField.toJson))),
    ("computed", .arr (d.computed.map (Emitted.toJson ComputedField.toJson))),
    ("events", .arr (d.events.map (Emitted.toJson EventField.toJson))),
    ("refs", .arr (d.refs.map (Emitted.toJson RefField.toJson))),
    ("providers", .arr (d.providers.map (Emitted.toJson ProviderField.toJson))),
    ("injects", .arr (d.injects.map (Emitted.toJson InjectField.toJson))),
    ("methods", .arr (d.methods.map (Emitted.toJson Method.toJson))),
    ("onInit", (d.onInit.map (Emitted.toJson Lifecycle.toJson)).getD .null),
    ("onDestroy", (d.onDestroy.map (Emitted.toJson Lifecycle.toJson)).getD .null),
    ("slots", d.slots.toJson Json.ofStrings), ("styles", .str d.styles),
    ("template", d.template.toJson Template.toJson),
    ("methodOrder", .arr (d.methodOrder.map Json.ofNat)),
    ("computedOrder", .arr (d.computedOrder.map Json.ofNat)),
    ("imports", d.imports.toJson), ("scratch", .obj d.scratch),
    ("declarations", Json.ofStrings d.declarations)]

end Polyview
