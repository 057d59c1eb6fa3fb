import Polyview.Component.Template
import Polyview.Error
import Polyview.Text.Naming
import Polyview.Text.Quoted
import Polyview.Text.Replace

/-! # Shapes of template nodes

Some tags are control forms: a `slot` is filled by the user of a component, a `Show` depends on a
condition and a `For` repeats its callback. `shapeOf` tells them from elements and checks that they have
their parts. Some attributes have a meaning of their own as well: references to elements, and maps of
classes and styles. -/

namespace Polyview

open Text

inductive NodeShape
  | slot (name : Option String) (children : List Template)
  | conditional (condition : String) (fallback : Option AttributeValue) (children : List Template)
  /-- A repetition; the `key` attribute at the root of the callback's markup is not part of `body`. -/
  | each (list : String) (key : Option String) (item : String) (index : Option String) (body : Template)
  | element (tag : String) (attributes : List Attribute) (children : List Template)
  | selfClosing (tag : String) (attributes : List Attribute)
  | fragment (children : List Template)
  | text (value : String)
  | expression (code : String)

def controlError (message : String) : Error := .unsupported .controlForm message none

/-! ### Repetitions -/

def takeAttribute (name : String) : List Attribute → Option AttributeValue × List Attribute
  | [] => (none, [])
  | a :: rest =>
    if a.name == name then (some a.value, rest)
    else
      let (found, others) := takeAttribute name rest
      (found, a :: others)

/-- The code of a key: an expression as it is, a text in quotes. -/
def keyCode? : AttributeValue → Option String
  | .expression code => some code
  | .static text => some (quote text)
  | _ => none

/-- Takes the `key` attribute off the root of a callback's markup. -/
def splitKey : Template → Template × Option String
  | .element tag attributes children =>
    let (key, others) := takeAttribute "key" attributes
    (.element tag others children, key.bind keyCode?)
  | .selfClosing tag attributes =>
    let (key, others) := takeAttribute "key" attributes
    (.selfClosing tag others, key.bind keyCode?)
  | node => (node, none)

def Template.isBlank : Template → Bool
  | .text value => isBlankText value
  | _ => false

def eachShape (node : Template) : Except Error NodeShape :=
  match node.expressionAttribute? "each" with
  | none => .error (controlError "<For> requires an `each=\x7b...\x7d` expression")
  | some list =>
    match node.children.filter fun child => !child.isBlank with
    | [.callback _ params body] =>
      let (inner, rootKey) := splitKey body
      let key := node.expressionAttribute? "key" <|> rootKey
      match params with
      | [item] => .ok (.each list key item none inner)
      | [item, index] => .ok (.each list key item (some index) inner)
      | _ => .error (controlError "<For> callbacks take an item and an optional index")
    | _ => .error (controlError "<For> takes exactly one `(item, index) => markup` callback child")

/-! ### Nodes -/

def slotShape (node : Template) : Except Error NodeShape :=
  match node.attribute? "name" with
  | none => .ok (.slot none node.children)
  | some (.static name) => .ok (.slot (some name) node.children)
  | some _ => .error (controlError "slot names are static strings")

def showShape (node : Template) : Except Error NodeShape :=
  match node.expressionAttribute? "when" with
  | none => .error (controlError "<Show> requires a `when=\x7b...\x7d` expression")
  | some condition => .ok (.conditional condition (node.attribute? "fallback") node.children)

def plainShape : Template → Except Error NodeShape
  | .element tag attributes children => .ok (.element tag attributes children)
  | .selfClosing tag attributes => .ok (.selfClosing tag attributes)
  | .fragment children => .ok (.fragment children)
  | .text value => .ok (.text value)
  | .expression code => .ok (.expression code)
  | .callback .. => .error (controlError "markup callbacks are only allowed inside <For>")

def shapeOf (node : Template) : Except Error NodeShape :=
  match node.tag? with
  | some "slot" => slotShape node
  | some "Show" => showShape node
  | some "For" => eachShape node
  | _ => plainShape node

/-! ### Attributes -/

def refMember? (code : String) : Option String :=
  match dropLead? "this.".toList (trimChars code.toList) with
  | some name => if isIdentifierChars name then some (String.ofList name) else none
  | none => none

inductive AttributeShape
  | ref (member : String)
  | classMap (name : String) (entries : List MapEntry) (code : String)
  | styleMap (entries : List MapEntry) (code : String)
  | plain (name : String) (value : AttributeValue)

def isClassName (name : String) : Bool := name == "class" || name == "className"

def attributeShape : Attribute → AttributeShape
  | .mk name (.expression code) =>
    if name == "ref" then
      match refMember? code with
      | some member => .ref member
      | none => .plain name (.expression code)
    else .plain name (.expression code)
  | .mk name (.objectMap entries code) =>
    if isClassName name then .classMap name entries code
    else if name == "style" then .styleMap entries code
    else .plain name (.objectMap entries code)
  | .mk name value => .plain name value

end Polyview
