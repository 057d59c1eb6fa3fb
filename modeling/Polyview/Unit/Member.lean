import Polyview.Script.Tree
import Polyview.Source.Location
import Polyview.Text.Indentation
import Polyview.Unit.Marker

/-! # Class members

A class member as it is declared, before its role is known. Types, initializers and bodies are kept as
text. -/

namespace Polyview

open Script Text

inductive MemberKind
  | field | getter | setter | method | constructor | accessorField | staticBlock | indexSignature
deriving DecidableEq, Repr

structure FunctionParts where
  params : String := ""
  paramCount : Nat := 0
  returnType : Option String := none
  /-- The statements between the braces, without their common indentation. -/
  body : String := ""
  isAsync : Bool := false
  statementCount : Nat := 0
  /-- The returned expression, if the body is exactly one `return` with a value. -/
  singleReturn : Option String := none
  /-- The body is exactly one `return` without a value. -/
  bareReturn : Bool := false
  /-- The returned expression is markup. -/
  returnsMarkup : Bool := false
deriving DecidableEq, Repr

structure ClassMember where
  name : String
  kind : MemberKind
  markers : List Marker := []
  /-- The decorators that are no markers, as written. -/
  otherDecorators : List String := []
  isStatic : Bool := false
  hasPrivateName : Bool := false
  hasComputedKey : Bool := false
  access : Access := .publicAccess
  isReadonly : Bool := false
  optional : Bool := false
  typeText : Option String := none
  initializer : Option String := none
  /-- The class in an initializer `new Class()`. -/
  constructed : Option String := none
  function : Option FunctionParts := none
  comments : List String := []
  source : String := ""
  location : Option Location := none
deriving DecidableEq, Repr

def ClassMember.marker? (m : ClassMember) : Option Marker := m.markers.head?

/-! ### Parts of nodes -/

def isDecorator (node : Node) : Bool := node.shape == .decorator

def textOf (source : List Char) (node : Node) : String := node.span.text source

/-- The type in the first type clause among some parts. -/
def typeOf? (parts : List Node) : Option Node := (parts.find? fun part => part.shape == .typeClause).bind Node.part?

/-- The value in the first initializer among some parts. -/
def initializerOf? (parts : List Node) : Option Node :=
  (parts.find? fun part => part.shape == .initializer).bind Node.part?

def isMarkup (node : Node) : Bool := node.shape == .jsxElement || node.shape == .jsxFragment

def constructedClass? (value : Node) : Option String :=
  match value.unwrapParens with
  | .mk .construct _ (callee :: _) => callee.referenceName?
  | _ => none

/-- A member's key by what it shows. -/
structure MemberKey where
  name : String
  isPrivate : Bool := false
  isComputed : Bool := false

def memberKey (source : List Char) (key : Node) : MemberKey :=
  match key with
  | .mk (.name text) _ _ => { name := text }
  | .mk (.privateName text) _ _ => { name := "#" ++ text, isPrivate := true }
  | .mk (.string value _) _ _ => { name := value }
  | .mk .computedKey _ [.mk (.string value _) _ _] => { name := value, isComputed := true }
  | .mk .computedKey _ [inner] => { name := textOf source inner, isComputed := true }
  | node => { name := textOf source node, isComputed := true }

/-! ### Functions -/

def isParam (node : Node) : Bool :=
  match node.shape with
  | .param _ _ => true
  | .restParam => true
  | _ => false

def paramsText (source : List Char) (params : List Node) : String :=
  match params.head?, params.getLast? with
  | some first, some last => (Span.mk first.span.start last.span.stop).text source
  | _, _ => ""

def betweenBraces : List Char → List Char
  | '\x7b' :: rest => if rest.getLast? == some '\x7d' then rest.dropLast else '\x7b' :: rest
  | text => text

def bodySpan (parts : List Node) (body : Node) : Span :=
  match parts.find? fun part => part.shape == .directives with
  | some directives => ⟨directives.span.start, body.span.stop⟩
  | none => body.span

def FunctionParts.withBody (source : List Char) (parts : FunctionParts) (span : Span) (body : Node) : FunctionParts :=
  let parts := { parts with
    body := dedent (String.ofList (betweenBraces (span.chars source)))
    statementCount := body.parts.length }
  match body.parts with
  | [.mk .returnStatement _ [value]] =>
    { parts with
      singleReturn := some (textOf source value)
      returnsMarkup := isMarkup value.unwrapParens }
  | [.mk .returnStatement _ []] => { parts with bareReturn := true }
  | _ => parts

def functionParts (source : List Char) (function : Node) : FunctionParts :=
  let params := match function.parts.find? fun part => part.shape == .params with
    | some list => list.parts.filter isParam
    | none => []
  let isAsync := match function.shape with
    | .functionNode _ isAsync _ _ => isAsync
    | _ => false
  let parts : FunctionParts := {
    params := paramsText source params
    paramCount := params.length
    returnType := (typeOf? function.parts).map (textOf source)
    isAsync }
  match function.parts.find? fun part => part.shape == .body with
  | some body => parts.withBody source (bodySpan function.parts body) body
  | none => parts

/-! ### Members -/

/-- The comments that are attached to one of some offsets. -/
def commentsAt (source : List Char) (comments : List Comment) (offsets : List Nat) : List String :=
  (comments.filter fun comment => offsets.contains comment.attachedTo).map fun comment => comment.span.text source

def MemberKind.ofMethod : MethodKind → MemberKind
  | .constructor => .constructor
  | .method => .method
  | .getter => .getter
  | .setter => .setter

/-- A member's own shape, apart from its decorators, comments and text. -/
def memberShape (source : List Char) (node : Node) : ClassMember :=
  let parts := node.parts.filter fun part => !isDecorator part
  let key := match parts with
    | key :: _ => memberKey source key
    | [] => { name := "" }
  let named (kind : MemberKind) (modifiers : Modifiers) : ClassMember :=
    { name := key.name
      kind
      isStatic := modifiers.isStatic
      hasPrivateName := key.isPrivate
      hasComputedKey := key.isComputed
      access := modifiers.access.getD .publicAccess }
  match node.shape with
  | .field modifiers optional =>
    if modifiers.isAccessor then { named .accessorField modifiers with access := .publicAccess }
    else
      let value := initializerOf? parts
      { named .field modifiers with
        isReadonly := modifiers.isReadonly
        optional
        typeText := (typeOf? parts).map (textOf source)
        initializer := value.map (textOf source)
        constructed := value.bind constructedClass? }
  | .method kind modifiers _ =>
    { named (.ofMethod kind) modifiers with function := parts.getLast?.map (functionParts source) }
  | .staticBlock => { name := "static", kind := .staticBlock, isStatic := true }
  | _ => { name := "[index]", kind := .indexSignature }

def classMember (source : List Char) (table : MarkerTable) (comments : List Comment) (node : Node) : ClassMember :=
  let decorators := node.parts.filter isDecorator
  { memberShape source node with
    markers := decorators.filterMap table.ofDecorator?
    otherDecorators := (decorators.filter fun d => (table.ofDecorator? d).isNone).map (textOf source)
    comments := commentsAt source comments (node.span.start :: decorators.map fun d => d.span.start)
    source := textOf source node
    location := Location.ofOffset? source node.span.start }

end Polyview
