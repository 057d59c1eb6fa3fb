import Polyview.Import.Registrar
import Polyview.Json
import Polyview.Template.Render

/-! # The workspace of a pipeline

What the hooks of one run share: the imports of the file that they write, and values under keys of their
choice. -/

namespace Polyview

abbrev Scratch := List (String × Json)

namespace Scratch

def get? (scratch : Scratch) (key : String) : Option Json := scratch.lookup key

def set (scratch : Scratch) (key : String) (value : Json) : Scratch :=
  match scratch with
  | [] => [(key, value)]
  | (k, v) :: rest => if k == key then (key, value) :: rest else (k, v) :: Scratch.set rest key value

def text? (scratch : Scratch) (key : String) : Option String := (Scratch.get? scratch key).bind Json.str?

/-- The list under a key; anything else counts as an empty list. -/
def list (scratch : Scratch) (key : String) : List Json := ((Scratch.get? scratch key).bind Json.items?).getD []

/-- Puts a value behind the list under a key. -/
def push (scratch : Scratch) (key : String) (value : Json) : Scratch :=
  Scratch.set scratch key (.arr (Scratch.list scratch key ++ [value]))

end Scratch

structure Workspace where
  imports : Registrar := {}
  scratch : Scratch := []

/-- A step of a pipeline: it may fail and may change the workspace. -/
abbrev Hooked (α : Type) := Rendering Workspace α

def importNamed (symbol module : String) : Hooked Unit :=
  modify fun w => { w with imports := w.imports.named symbol module }

def importType (symbol module : String) : Hooked Unit :=
  modify fun w => { w with imports := w.imports.typeNamed symbol module }

def setScratch (key : String) (value : Json) : Hooked Unit :=
  modify fun w => { w with scratch := w.scratch.set key value }

def pushScratch (key : String) (value : Json) : Hooked Unit :=
  modify fun w => { w with scratch := w.scratch.push key value }

/-- Goes on with a result, or fails with its error. -/
def lift {α : Type} (result : Except Error α) : Hooked α :=
  match result with
  | .ok value => pure value
  | .error error => throw error

end Polyview
