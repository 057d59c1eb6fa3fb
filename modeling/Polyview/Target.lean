import Polyview.Text.Case

/-! # Targets

The frameworks that a component can be written for. -/

namespace Polyview

inductive Target
  | react
  | vue
  | svelte
  | lit
deriving DecidableEq, Repr, Inhabited

def Target.all : List Target := [.react, .vue, .svelte, .lit]

def Target.name : Target → String
  | .react => "react"
  | .vue => "vue"
  | .svelte => "svelte"
  | .lit => "lit"

def Target.extension : Target → String
  | .react => "tsx"
  | .vue => "vue"
  | .svelte => "svelte"
  | .lit => "ts"

def Target.ofName? (name : String) : Option Target := Target.all.find? fun target => target.name == name

/-- The spelling under which a target is looked up: trimmed, with ASCII letters in lower case. -/
def Target.spelling (text : String) : String := Text.asciiLowercase (Text.trim text)

/-- The target with the given name, in any case and with blanks around it. -/
def Target.parse? (text : String) : Option Target := Target.ofName? (Target.spelling text)

def Target.unknownMessage (text : String) : String :=
  "unknown target `" ++ Target.spelling text ++ "` (expected one of react, vue, svelte, lit)"

end Polyview
