import Polyview.Script.Node

/-! # Markers

A marker is a decorator that gives a class or a member its role. It goes by its own name, by the name under
which it is imported, or as a property of an import of the whole marker module. -/

namespace Polyview

open Script

inductive Marker
  | component | provider | prop | state | computed | event | ref | inject | provide
deriving DecidableEq, Repr

namespace Marker

def name : Marker → String
  | .component => "Component"
  | .provider => "Provider"
  | .prop => "Prop"
  | .state => "State"
  | .computed => "Computed"
  | .event => "Event"
  | .ref => "Ref"
  | .inject => "Inject"
  | .provide => "Provide"

def all : List Marker := [.component, .provider, .prop, .state, .computed, .event, .ref, .inject, .provide]

def ofName? (name : String) : Option Marker := all.find? fun marker => marker.name == name

def isClassMarker : Marker → Bool
  | .component => true
  | .provider => true
  | _ => false

end Marker

/-- The module from which markers are imported; its import is not kept. -/
def markerModule : String := "@tessera/core"

structure MarkerTable where
  /-- Imported names, the last import first. -/
  aliases : List (String × Marker) := []
  /-- Names of the whole module. -/
  modules : List String := []

namespace MarkerTable

/-- Adds what a part of an import of the marker module binds. -/
def addSpecifier (table : MarkerTable) : Node → MarkerTable
  | .mk (.importNamed imported _) _ parts =>
    match Marker.ofName? imported, parts.filterMap Node.bindingName? with
    | some marker, name :: _ => { table with aliases := (name, marker) :: table.aliases }
    | _, _ => table
  | .mk .importNamespace _ parts => { table with modules := parts.filterMap Node.bindingName? ++ table.modules }
  | _ => table

def addStatement (table : MarkerTable) : Node → MarkerTable
  | .mk (.importDeclaration source _) _ parts =>
    if source == markerModule then parts.foldl addSpecifier table else table
  | _ => table

def ofStatements (statements : List Node) : MarkerTable := statements.foldl addStatement {}

def ofName? (table : MarkerTable) (name : String) : Option Marker := table.aliases.lookup name <|> Marker.ofName? name

def ofCallee? (table : MarkerTable) : Node → Option Marker
  | .mk (.reference name) _ _ => table.ofName? name
  | .mk (.member name _) _ [.mk (.reference object) _ _] =>
    if table.modules.contains object then Marker.ofName? name else none
  | _ => none

/-- The marker that a decorator's expression denotes, called or not. -/
def ofExpression? (table : MarkerTable) : Node → Option Marker
  | .mk (.call _) _ (callee :: _) => table.ofCallee? callee
  | node => table.ofCallee? node

def ofDecorator? (table : MarkerTable) (decorator : Node) : Option Marker := decorator.part?.bind table.ofExpression?

end MarkerTable

end Polyview
