import Polyview.Backend.Table
import Polyview.Unit.Extraction
import Polyview.Verification

/-! # Compilation

A source unit becomes a file of a target: it is extracted, turned into a draft, laid out and verified. -/

namespace Polyview

structure CompileOptions where
  target : Target := .react
  verify : Bool := true
  /-- A file that is a script as a whole is checked even where `verify` is off; its layout is kept. -/
  normalize : Bool := false
deriving DecidableEq, Repr, Inhabited

structure CompiledFile where
  target : Target
  fileName : String
  code : String
deriving DecidableEq, Repr

def compileComponent (options : CompileOptions) (c : Component) : Except Error CompiledFile := do
  let target := options.target
  let code ← target.render c
  let code ← if options.normalize then normalizeFile target code else pure code
  if options.verify then verifyFile target code
  return { target, fileName := c.name ++ "." ++ target.extension, code }

def compileProvider (options : CompileOptions) (provider : ProviderClass) : Except Error CompiledFile := do
  let target := options.target
  let code := target.providerModule provider
  if options.verify then verifyModule target code
  return { target, fileName := provider.name ++ ".ts", code }

def compile (options : CompileOptions) (source : String) : Except Error CompiledFile := do
  match ← extractUnit source with
  | .component c => compileComponent options c
  | .provider provider => compileProvider options provider

/-! ### JSON -/

def readOr {α : Type} (default : α) (read : Json → Option α) : Option Json → Option α
  | none => some default
  | some json => read json

def Target.ofJson? (json : Json) : Option Target := json.str?.bind Target.ofName?

/-- Reads options from their three values, each of which may be absent. -/
def CompileOptions.ofParts? (target verify normalize : Option Json) : Option CompileOptions := do
  let target ← readOr .react Target.ofJson? target
  let verify ← readOr true Json.bool? verify
  let normalize ← readOr false Json.bool? normalize
  return { target, verify, normalize }

/-- Reads options: an object, or a list of at most three values. -/
def CompileOptions.ofJson? : Json → Option CompileOptions
  | .obj fields =>
    ofParts? ((Json.obj fields).field? "target") ((Json.obj fields).field? "verify")
      ((Json.obj fields).field? "normalize")
  | .arr items => if items.length ≤ 3 then ofParts? items[0]? items[1]? items[2]? else none
  | _ => none

end Polyview
