import Polyview.Component.Template
import Polyview.Import.Basic

/-! # Components

What a source unit declares. A component has members by role, options, a template, and the imports and
type declarations around its class. Member code is kept as written, with members spelled `this.name`. -/

namespace Polyview

/-! ### Members -/

structure PropField where
  name : String
  typeText : Option String := none
  defaultValue : Option String := none
  optional : Bool := false
  comments : List String := []
  source : String := ""
deriving DecidableEq, Repr

structure StateField where
  name : String
  typeText : Option String := none
  initializer : Option String := none
  comments : List String := []
  source : String := ""
deriving DecidableEq, Repr

/-- A value computed from other members; `expression` is what its getter returns. -/
structure ComputedField where
  name : String
  returnType : Option String := none
  expression : String := ""
  comments : List String := []
  source : String := ""
deriving DecidableEq, Repr

/-- An event that a component emits; `eventName` is the name under which it is dispatched. -/
structure EventField where
  name : String
  eventName : String
  payloadType : Option String := none
  comments : List String := []
  source : String := ""
deriving DecidableEq, Repr

structure RefField where
  name : String
  typeText : Option String := none
  comments : List String := []
  source : String := ""
deriving DecidableEq, Repr

/-- A value provided to the components below, under a class as its token. -/
structure ProviderField where
  name : String
  token : String
  typeText : Option String := none
  initializer : String := ""
  comments : List String := []
  source : String := ""
deriving DecidableEq, Repr

/-- A value provided by a component above, under a class as its token. -/
structure InjectField where
  name : String
  token : String
  comments : List String := []
  source : String := ""
deriving DecidableEq, Repr

/-- A method; `params` is its parameter list and `body` the statements between its braces. -/
structure Method where
  name : String
  params : String := ""
  returnType : Option String := none
  body : String := ""
  isAsync : Bool := false
  comments : List String := []
  source : String := ""
deriving DecidableEq, Repr

structure Lifecycle where
  body : String
  isAsync : Bool
  comments : List String := []
  source : String := ""
deriving DecidableEq, Repr

/-! ### Units -/

structure Component where
  name : String
  selector : Option String
  styles : String
  template : Template
  props : List PropField
  state : List StateField
  computed : List ComputedField
  events : List EventField
  refs : List RefField
  providers : List ProviderField
  injects : List InjectField
  methods : List Method
  onInit : Option Lifecycle
  onDestroy : Option Lifecycle
  /-- Slot names in document order; the unnamed slot is `default`. -/
  slots : List String
  imports : List Import
  /-- Interfaces and type aliases as written. -/
  declarations : List String

/-- A class that is provided to components; `source` is its text without markers. -/
structure ProviderClass where
  name : String
  source : String
  imports : List Import
  declarations : List String
deriving DecidableEq, Repr

inductive SourceUnit
  | component (value : Component)
  | provider (value : ProviderClass)

namespace Component

def isState (c : Component) (name : String) : Bool := c.state.any fun m => m.name == name

def isProp (c : Component) (name : String) : Bool := c.props.any fun m => m.name == name

def isComputed (c : Component) (name : String) : Bool := c.computed.any fun m => m.name == name

def isRef (c : Component) (name : String) : Bool := c.refs.any fun m => m.name == name

def isMethod (c : Component) (name : String) : Bool := c.methods.any fun m => m.name == name

def event? (c : Component) (name : String) : Option EventField := c.events.find? fun m => m.name == name

def hasMember (c : Component) (name : String) : Bool :=
  c.isProp name || c.isState name || c.isComputed name || c.isRef name || c.isMethod name ||
    (c.event? name).isSome || (c.providers.any fun m => m.name == name) ||
    c.injects.any fun m => m.name == name

def importSource? (c : Component) (name : String) : Option String :=
  (c.imports.find? fun record => record.binds name).map Import.source

end Component

end Polyview
