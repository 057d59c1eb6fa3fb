import Polyview.Backend.Lit
import Polyview.Backend.React
import Polyview.Backend.Svelte
import Polyview.Backend.Vue

/-! # Targets

What each target does with a component and with a provider class. -/

namespace Polyview

namespace Target

def hooks : Target → Hooks
  | .react => React.hooks
  | .vue => Vue.hooks
  | .svelte => Svelte.hooks
  | .lit => Lit.hooks

def file (target : Target) (d : Draft) : Except Error String :=
  match target with
  | .react => .ok (React.file d)
  | .vue => .ok (Vue.file d)
  | .svelte => .ok (Svelte.file d)
  | .lit => Lit.file d

def providerModule (target : Target) (provider : ProviderClass) : String :=
  match target with
  | .react => React.providerModule provider
  | _ => providerFile (provider.imports.foldl Registrar.register {}) provider []

def render (target : Target) (c : Component) : Except Error String := do
  target.file (← target.hooks.run c)

end Target

end Polyview
