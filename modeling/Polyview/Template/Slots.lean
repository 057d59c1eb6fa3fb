import Polyview.Component.Basic
import Polyview.Template.Shape

/-! # Slots and references of a template

Both are found by a walk over the template in document order. Attributes come before children, and markup in
attributes and callbacks belongs to the walk. -/

namespace Polyview

open Text

mutual
/-- All nodes of a template, each before what is inside it. -/
def Template.nodes : Template → List Template
  | .element tag attributes children =>
    .element tag attributes children :: (nodesOfAttributes attributes ++ nodesOfTemplates children)
  | .selfClosing tag attributes => .selfClosing tag attributes :: nodesOfAttributes attributes
  | .fragment children => .fragment children :: nodesOfTemplates children
  | .text value => [.text value]
  | .expression code => [.expression code]
  | .callback code params body => .callback code params body :: body.nodes

def AttributeValue.nodes : AttributeValue → List Template
  | .template node => node.nodes
  | _ => []

def Attribute.nodes : Attribute → List Template
  | .mk _ value => value.nodes

def nodesOfAttributes : List Attribute → List Template
  | [] => []
  | a :: rest => a.nodes ++ nodesOfAttributes rest

def nodesOfTemplates : List Template → List Template
  | [] => []
  | node :: rest => node.nodes ++ nodesOfTemplates rest
end

mutual
/-- All attributes of a template, each before those in its markup. -/
def Template.allAttributes : Template → List Attribute
  | .element _ attributes children => attributesOfAttributes attributes ++ attributesOfTemplates children
  | .selfClosing _ attributes => attributesOfAttributes attributes
  | .fragment children => attributesOfTemplates children
  | .text _ => []
  | .expression _ => []
  | .callback _ _ body => body.allAttributes

def AttributeValue.allAttributes : AttributeValue → List Attribute
  | .template node => node.allAttributes
  | _ => []

def Attribute.allAttributes : Attribute → List Attribute
  | .mk name value => .mk name value :: value.allAttributes

def attributesOfAttributes : List Attribute → List Attribute
  | [] => []
  | a :: rest => a.allAttributes ++ attributesOfAttributes rest

def attributesOfTemplates : List Template → List Attribute
  | [] => []
  | node :: rest => node.allAttributes ++ attributesOfTemplates rest
end

def slotName? (node : Template) : Option String :=
  if node.tag? == some "slot" then
    match node.attribute? "name" with
    | some (.static name) => some (camelCase name)
    | some (.expression code) => some code
    | _ => some "default"
  else none

/-- The names of the slots in document order, with repetitions. -/
def collectSlots (node : Template) : List String := node.nodes.filterMap slotName?

/-- The error of a reference that names no declared reference member. -/
def refFault? (c : Component) (a : Attribute) : Option Error :=
  if a.name != "ref" then none
  else
    match (match a.value with
      | .expression code => refMember? code
      | _ => none) with
    | some member =>
      if c.isRef member then none
      else some (.member .unknownRef member "ref binding does not name a declared @Ref member" none)
    | none =>
      some (.member .unknownRef (a.value.code?.getD "ref")
        "ref bindings take the form `ref=\x7bthis.member\x7d`" none)

/-- Checks that every reference in a template names a declared reference member. -/
def checkRefs (c : Component) (node : Template) : Except Error Unit :=
  match node.allAttributes.findSome? (refFault? c) with
  | some error => .error error
  | none => .ok ()

end Polyview
