/-! # Templates

The markup of a component as a tree. An expression keeps its code as written; a callback is an expression
`(params) => markup` whose markup is kept as a tree as well. -/

namespace Polyview

/-- An entry of an object literal with a static key. -/
structure MapEntry where
  key : String
  value : String
deriving DecidableEq, Repr

mutual
inductive Template
  | element (tag : String) (attributes : List Attribute) (children : List Template)
  | selfClosing (tag : String) (attributes : List Attribute)
  | fragment (children : List Template)
  | text (value : String)
  | expression (code : String)
  /-- The expression `(params) => body`, which as a whole reads `code`. -/
  | callback (code : String) (params : List String) (body : Template)

inductive Attribute
  | mk (name : String) (value : AttributeValue)

inductive AttributeValue
  | boolean
  | static (text : String)
  | expression (code : String)
  /-- An object literal with static keys, which as a whole reads `code`. -/
  | objectMap (entries : List MapEntry) (code : String)
  | template (node : Template)
end

instance : Inhabited Template := ⟨.fragment []⟩

def Attribute.name : Attribute → String
  | .mk name _ => name

def Attribute.value : Attribute → AttributeValue
  | .mk _ value => value

def AttributeValue.code? : AttributeValue → Option String
  | .expression code => some code
  | .objectMap _ code => some code
  | _ => none

namespace Template

def tag? : Template → Option String
  | .element tag _ _ => some tag
  | .selfClosing tag _ => some tag
  | _ => none

def attributes : Template → List Attribute
  | .element _ attributes _ => attributes
  | .selfClosing _ attributes => attributes
  | _ => []

def attribute? (node : Template) (name : String) : Option AttributeValue :=
  (node.attributes.find? fun a => a.name == name).map Attribute.value

/-- The code of the first attribute with the given name, if its value is an expression. -/
def expressionAttribute? (node : Template) (name : String) : Option String :=
  match node.attribute? name with
  | some (.expression code) => some code
  | _ => none

def children : Template → List Template
  | .element _ _ children => children
  | .fragment children => children
  | _ => []

end Template

mutual
/-- The number of nodes of a template, markup in attributes and callbacks included. -/
def Template.size : Template → Nat
  | .element _ attributes children => 1 + sizeAttributes attributes + sizeTemplates children
  | .selfClosing _ attributes => 1 + sizeAttributes attributes
  | .fragment children => 1 + sizeTemplates children
  | .text _ => 1
  | .expression _ => 1
  | .callback _ _ body => 1 + body.size

def AttributeValue.size : AttributeValue → Nat
  | .template node => node.size
  | _ => 0

def Attribute.size : Attribute → Nat
  | .mk _ value => value.size

def sizeAttributes : List Attribute → Nat
  | [] => 0
  | a :: rest => a.size + sizeAttributes rest

def sizeTemplates : List Template → Nat
  | [] => 0
  | node :: rest => node.size + sizeTemplates rest
end

end Polyview
