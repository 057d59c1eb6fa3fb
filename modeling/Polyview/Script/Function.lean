import Polyview.Script.Type

/-! # Functions and classes

Function bodies, functions and classes. A function without a body is a signature; it ends like a
statement. -/

namespace Polyview.Script

/-! ### Bodies -/

def isDirective : Node → Bool
  | .mk .expressionStatement span [.mk (.string ..) inner _] => span.start == inner.start
  | _ => false

def inFunctionBody {α : Type} (isAsync isGenerator : Bool) (rule : Parse α) : Parse α :=
  withReader
    (fun context =>
      { context with
        allowIn := true, inDecorator := false, noConditionalType := false, inFunction := true,
        inAsync := isAsync, inGenerator := isGenerator })
    rule

def functionParams (g : Grammar) (inClass isAsync isGenerator : Bool) : Parse Node :=
  withReader (fun context => { context with inAsync := isAsync, inGenerator := isGenerator })
    (params g inClass)

/-- Reads the body of a function between braces; the directives at its start stand apart, with the opening
brace. -/
def functionBody (g : Grammar) (isAsync isGenerator : Bool) : Parse (List Node) := do
  let start ← startOffset
  expect .lbrace
  let all ← inFunctionBody isAsync isGenerator (manyUntil (sees .rbrace) g.statement)
  expect .rbrace
  let (directives, statements) := all.span isDirective
  match directives.getLast? with
  | some last =>
    let body ← finish last.span.stop .body statements
    return [.mk .directives ⟨start, last.span.stop⟩ directives, body]
  | none => return [← finish start .body statements]

/-- Reads a function behind its name; `inClass` tells whether it is a class member. -/
def functionRest (g : Grammar) (start : Nat) (form : FunctionForm) (inClass isAsync isGenerator : Bool)
    (name : List Node) : Parse Node := do
  let typeParams ← typeParameters? g
  let list ← functionParams g inClass isAsync isGenerator
  let result ← returnType? g
  let context ← read
  let shape := Shape.functionNode form isAsync isGenerator context.inAmbient
  let head := name ++ typeParams ++ list :: result
  if ← sees .lbrace then
    let body ← functionBody g isAsync isGenerator
    finish start shape (head ++ body)
  else if form == .expression then reject
  else
    endStatement
    finish start shape head

/-- Reads the name of a function. A function expression has its name to itself. -/
def functionName (form : FunctionForm) (isAsync isGenerator : Bool) : Parse Node :=
  if form == .expression then
    withReader (fun context => { context with inAsync := isAsync, inGenerator := isGenerator }) binding
  else binding

def functionWithName (g : Grammar) (start : Nat) (form : FunctionForm) (isAsync nameless : Bool) :
    Parse Node := do
  expectWord .kwFunction
  let isGenerator ← eat .star
  let name ← if ← seesIdentifier then pure [← functionName form isAsync isGenerator]
    else if nameless then pure []
    else reject
  functionRest g start form false isAsync isGenerator name

/-! ### Class members -/

/-- The number of parameters in a list, and whether one collects the rest. -/
def countParams : Node → Nat × Bool
  | .mk _ _ parts =>
    let isParam (part : Node) : Bool := match part.shape with
      | .param .. | .restParam => true
      | _ => false
    let isRest (part : Node) : Bool := part.shape == .restParam
    ((parts.filter isParam).length, parts.any isRest)

def isGeneric (function : Node) : Bool := function.parts.any fun part => part.shape == .typeParameters || bindsThis part

/-- Whether a parameter has a value to fall back to. -/
def hasFallback (part : Node) : Bool :=
  match part.shape with
  | .param .. => part.parts.any fun inner => inner.shape == .initializer
  | _ => false

/-- Whether the parameters of a method fit its kind: none for a getter, one that is always given for a
setter. -/
def fitsKind (kind : MethodKind) (function : Node) : Bool :=
  match function.parts.find? fun part => part.shape == .params with
  | some list =>
    let (count, rest) := countParams list
    match kind with
    | .getter => count == 0
    | .setter => count == 1 && !rest && !list.parts.any hasFallback
    | _ => true
  | none => true

def methodRest (g : Grammar) (inClass : Bool) (kind : MethodKind) (isAsync isGenerator : Bool) :
    Parse Node := do
  let start ← startOffset
  let function ← functionRest g start .member inClass isAsync isGenerator []
  flawIf !(fitsKind kind function)
  return function

/-- Reads the key of a class member. A private name is not `constructor`, and needs no other mark that tells
who can see it. -/
def classKey (g : Grammar) (mods : Modifiers) : Parse Node := do
  match ← tokenKind with
  | .privateName name =>
    flawIf (name == "constructor" || mods.access.isSome)
    leaf (.privateName name)
  | _ => propertyKey g

def isSpelled (spelling : String) (key : Node) : Bool :=
  match key.shape with
  | .name text => text == spelling
  | .string value _ => value == spelling
  | _ => false

def isConstructorKey (key : Node) : Bool := isSpelled "constructor" key

/-- Refuses a static member that would replace the prototype of its class. -/
def keepPrototype (mods : Modifiers) (key : Node) : Parse Unit := do
  let context ← read
  flawIf (mods.isStatic && !context.inAmbient && isSpelled "prototype" key)

/-- Reads a static block. `await` is a keyword in it, though nothing can be waited for. -/
def staticBlock (g : Grammar) (start : Nat) (marks : List Node) : Parse Node := do
  expectWord .kwStatic
  flawIf !marks.isEmpty
  expect .lbrace
  let statements ← inFunctionBody true false
    (withReader (fun context => { context with inFunction := false }) (manyUntil (sees .rbrace) g.statement))
  expect .rbrace
  finish start .staticBlock statements

def classAccessor (g : Grammar) (start : Nat) (marks : List Node) (mods : Modifiers) : Parse Node := do
  let kind := if ← seesWord .kwGet then MethodKind.getter else .setter
  flawIf (mods.isReadonly || mods.isAccessor || mods.isAsync || mods.isDeclared)
  next
  let key ← classKey g mods
  flawIf (isConstructorKey key && !mods.isStatic)
  keepPrototype mods key
  let function ← methodRest g true kind false false
  finish start (.method kind mods false) (marks ++ [key, function])

def hasFieldConflict (mods : Modifiers) (optional definite hasValue : Bool) : Bool :=
  definite && optional || mods.isAsync || mods.isAbstract && hasValue ||
    mods.isAccessor && (optional || mods.isReadonly || mods.isDeclared)

def classField (g : Grammar) (start : Nat) (marks : List Node) (mods : Modifiers) (optional : Bool)
    (key : Node) : Parse Node := do
  let definite ← if !(← onNewLine) then eat .bang else pure false
  let type ← typeClause? g
  let value ← inFunctionBody false false (initializer? g)
  flawIf (hasFieldConflict mods optional definite !value.isEmpty || isConstructorKey key)
  keepPrototype mods key
  endStatement
  finish start (.field mods optional) (marks ++ key :: type ++ value)

def isImplemented (function : Node) : Bool := function.parts.any fun part => part.shape == .body

def classMember (g : Grammar) (start : Nat) (marks : List Node) (mods : Modifiers) : Parse Node := do
  let isGenerator ← eat .star
  let key ← classKey g mods
  let optional ← if isGenerator then pure false else eat .question
  if isGenerator || (← sees .lparen) || (← sees .less) then
    let kind := if isConstructorKey key && !mods.isStatic then MethodKind.constructor else .method
    flawIf (kind == .constructor && (isGenerator || mods.isAsync))
    flawIf (mods.isReadonly || mods.isDeclared || mods.isAccessor)
    keepPrototype mods key
    let function ← methodRest g true kind mods.isAsync isGenerator
    flawIf (kind == .constructor && isGeneric function)
    flawIf (kind != .constructor && !marks.isEmpty && !isImplemented function)
    finish start (.method kind mods optional) (marks ++ [key, function])
  else classField g start marks mods optional key

def classElement (g : Grammar) : Parse Node := do
  let start ← startOffset
  let marks ← decorators g
  if (← seesWord .kwStatic) && (← nextIs fun t => t.kind == .punct .lbrace) then
    staticBlock g start marks
  else
    let mods ← modifiers
    if ← seesAccessor then classAccessor g start marks mods
    else if ← seesIndexSignature then
      flawIf (!marks.isEmpty || { mods with isReadonly := false, isStatic := false } != {})
      indexSignature g start
    else classMember g start marks mods

/-- Whether the body of a class ends here, behind semicolons that stand between its members. -/
def endsMembers : Parse Bool := do
  let _ ← manyUntil (do return !(← sees .semicolon)) next
  sees .rbrace

def classBody (g : Grammar) : Parse Node := do
  let start ← startOffset
  expect .lbrace
  let members ← inBrackets (manyUntil endsMembers (classElement g))
  expect .rbrace
  finish start .classBody members

/-! ### Classes -/

def extendsClause (g : Grammar) : Parse Node := do
  let start ← startOffset
  expectWord .kwExtends
  let value ← g.leftHandSide
  let arguments ← if ← seesLess then pure [← typeArguments g] else pure []
  finish start .extendsClause (value :: arguments)

def implementsClause (g : Grammar) : Parse Node := do
  let start ← startOffset
  expectWord .kwImplements
  let types ← commaList1 (typeReference g)
  finish start .implementsClause types

def className? : Parse (List Node) := do
  if (← seesIdentifier) && !(← seesWord .kwImplements) then return [← binding] else return []

def classParents (g : Grammar) : Parse (List Node) := do
  let parents ← if ← seesWord .kwExtends then pure [← extendsClause g] else pure []
  let types ← if ← seesWord .kwImplements then pure [← implementsClause g] else pure []
  return parents ++ types

def classHead (g : Grammar) : Parse (List Node) := do
  let name ← className?
  let typeParams ← typeParameters? g
  let parents ← classParents g
  return name ++ typeParams ++ parents

def classRest (g : Grammar) (start : Nat) (isDeclaration : Bool) (mods : Modifiers) (marks : List Node) :
    Parse Node := do
  expectWord .kwClass
  let context ← read
  let mods := { mods with isDeclared := mods.isDeclared || context.inAmbient }
  let head ← classHead g
  let body ← classBody g
  finish start (.classNode isDeclaration mods) (marks ++ head ++ [body])

end Polyview.Script
