import Polyview.Script.Token

/-! # Syntax trees

The tree of a script. A node has a shape, a span, and its parts in the order in which they are written, so
a walk over the parts visits a script from left to right. What a shape carries beside the parts are names
and marks that have no parts of their own.

Names are leaves of three shapes: a `reference` reads or writes a variable or a type, a `binding` declares
one, and a `name` is neither. -/

namespace Polyview.Script

/-! ### Marks -/

inductive VarKind
  | varKind | letKind | constKind | usingKind | awaitUsingKind
deriving DecidableEq, Repr

inductive MethodKind
  | constructor | method | getter | setter
deriving DecidableEq, Repr

inductive Access
  | publicAccess | protectedAccess | privateAccess
deriving DecidableEq, Repr

structure Modifiers where
  access : Option Access := none
  isStatic : Bool := false
  isReadonly : Bool := false
  isAbstract : Bool := false
  isDeclared : Bool := false
  isOverride : Bool := false
  isAccessor : Bool := false
  isAsync : Bool := false
deriving DecidableEq, Repr, Inhabited

inductive FunctionForm
  | declaration | expression | member
deriving DecidableEq, Repr

inductive TypeForm
  | keyword | literal | reference | query | function | constructor | object | tuple | array | union
  | intersection | conditional | infer | mapped | indexed | operator | predicate | imported | template
  | this | paren | member | optional | nonNull | rest | named
deriving DecidableEq, Repr

/-! ### Shapes -/

/-- What a node is. The comment behind a shape lists its parts where they are not plain from its name; a
question mark follows a part that may be absent. -/
inductive Shape
  -- names
  | reference (name : String)
  | binding (name : String)
  | name (text : String)
  | privateName (text : String)
  -- literals
  | this | super | null | boolean (value : Bool) | number (legacy : Bool) | bigint
  | string (value : String) (legacy : Bool) | regex
  | template -- substitutions
  -- collections
  | array | hole | object
  | spread (comma : Bool) -- whether a comma stands behind it
  | property -- key, value
  | methodProperty (kind : MethodKind) -- key, function
  | shorthand -- reference
  | shorthandDefault -- reference, value
  | computedKey
  -- access and calls
  | member (name : String) (optional : Bool) -- object
  | privateMember (name : String) (optional : Bool) -- object
  | index (optional : Bool) -- object, index
  | call (optional : Bool) -- callee, typeArguments?, arguments
  | arguments
  | construct -- callee, typeArguments?, arguments?
  | importCall -- arguments
  | importMeta | newTarget
  | chain -- the outermost access or call with `?.` below it
  | tagged -- tag, typeArguments?, template
  -- operators
  | unary (symbol : String)
  | update (increment before : Bool)
  | binary (symbol : String)
  | logical (symbol : String)
  | assign (op : AssignOp) -- target, value
  | conditional | sequence | paren | await | yield
  | asType | satisfies | nonNull | typeAssertion | instantiation
  -- functions and classes
  | arrow (isAsync isExpression : Bool) -- typeParameters?, params, typeClause?, directives?, body
  | functionNode (form : FunctionForm) (isAsync isGenerator isDeclared : Bool)
    -- binding?, typeParameters?, params, typeClause?, directives?, body?
  | params
  | param (optional : Bool) (modifiers : Modifiers) -- decorators, pattern, typeClause?, initializer?
  | restParam -- decorators, pattern; its typeClause follows it among the parts of `params`
  | thisParam
  | directives -- statements that are strings
  | body -- the other statements
  | typeClause | initializer | decorator
  | classNode (isDeclaration : Bool) (modifiers : Modifiers)
    -- decorators, binding?, typeParameters?, heritage, classBody
  | extendsClause | implementsClause | classBody
  | method (kind : MethodKind) (modifiers : Modifiers) (optional : Bool) -- decorators, key, function
  | field (modifiers : Modifiers) (optional : Bool) -- decorators, key, typeClause?, initializer?
  | staticBlock | indexSignature
  -- patterns
  | arrayPattern | objectPattern | restPattern
  | patternProperty -- key, pattern
  | patternShorthand -- pattern
  | defaultPattern -- pattern, value
  -- markup
  | jsxElement -- opening, children, closing?
  | jsxFragment -- children
  | jsxOpening (selfClosing : Bool) -- name, typeArguments?, attributes
  | jsxClosing -- name
  | jsxNamespaced (space text : String)
  | jsxMember (text : String) -- object
  | jsxAttribute (name : String) -- value?
  | jsxSpreadAttribute | jsxText | jsxContainer | jsxEmpty | jsxSpreadChild
  -- statements
  | expressionStatement | block | emptyStatement | ifStatement
  | forStatement -- head parts, body
  | forInStatement | forOfStatement (isAwait : Bool) -- target, list, body
  | whileStatement | doStatement | returnStatement | throwStatement | debuggerStatement | withStatement
  | breakStatement (label : Option String)
  | continueStatement (label : Option String)
  | labeled (label : String)
  | switchStatement -- value, cases
  | switchCase (isDefault : Bool)
  | tryStatement -- block, catchClause?, finallyClause?
  | catchClause -- pattern?, typeClause?, block
  | finallyClause
  | varDeclaration (kind : VarKind) (isDeclared : Bool) -- declarators
  | declarator -- pattern, typeClause?, initializer?
  -- type declarations
  | interfaceDeclaration -- binding, typeParameters?, heritage, members
  | typeAlias -- binding, typeParameters?, type
  | enumDeclaration (isConst isDeclared : Bool) -- binding, members
  | enumMember
  | namespaceDeclaration (isDeclared : Bool) -- binding or string, namespaceBody?
  | globalDeclaration -- namespaceBody
  | namespaceBody -- statements
  | importEquals (isTypeOnly : Bool) -- binding, value
  -- modules
  | importDeclaration (source : String) (isTypeOnly : Bool)
  | importNamed (imported : String) (isTypeOnly : Bool) -- binding
  | importDefault | importNamespace -- binding
  | exportNamed (isTypeOnly : Bool) -- declaration, or specifiers
  | exportSpecifier
  | exportDefault | exportAll | exportAssignment | exportNamespace
  -- types
  | typeArguments | typeParameters
  | typeParameter (isVariant : Bool) -- binding, constraint?, default?; marked by `in` or `out`
  | type (form : TypeForm)
  | qualified (text : String) -- left side
  -- the whole
  | program
deriving Repr, DecidableEq

inductive Node
  | mk (shape : Shape) (span : Span) (parts : List Node)
deriving Repr

instance : Inhabited Node := ⟨.mk .emptyStatement default []⟩

namespace Node

def shape : Node → Shape
  | .mk shape _ _ => shape

def span : Node → Span
  | .mk _ span _ => span

def parts : Node → List Node
  | .mk _ _ parts => parts

def part? (node : Node) : Option Node := node.parts.head?

def unwrapParens : Node → Node
  | .mk .paren _ [inner] => inner.unwrapParens
  | node => node

mutual
/-- All nodes of a tree, each before its parts. -/
def nodes : Node → List Node
  | .mk shape span parts => .mk shape span parts :: nodesOf parts

def nodesOf : List Node → List Node
  | [] => []
  | node :: rest => node.nodes ++ nodesOf rest
end

def referenceName? (node : Node) : Option String :=
  match node.shape with
  | .reference name => some name
  | _ => none

def bindingName? (node : Node) : Option String :=
  match node.shape with
  | .binding name => some name
  | _ => none

def references (node : Node) : List String := node.nodes.filterMap referenceName?

def bindings (node : Node) : List String := node.nodes.filterMap bindingName?

end Node

def argumentsOf : List Node → List Node
  | [] => []
  | .mk .arguments _ parts :: _ => parts
  | _ :: rest => argumentsOf rest

end Polyview.Script
