import Polyview.Script.Scope
import Polyview.Script.Tree

/-! # Early errors

A script that follows the grammar may still be refused before it runs. Scripts are modules, so they are
strict. Some rules look at one node and its parts, others depend on the loops, functions and classes around
it. -/

namespace Polyview.Script

/-! ### Rules for single nodes -/

/-- Whether a word names nothing in a module. -/
def isReservedName (name : String) : Bool :=
  match keywordOf? name.toList with
  | some keyword => keyword.isStrictReserved || keyword == .kwAwait
  | none => false

def isProtectedName (name : String) : Bool := name == "eval" || name == "arguments"

def isProtectedTarget (node : Node) : Bool := (node.referenceName?.map isProtectedName).getD false

def isUndeletable (node : Node) : Bool :=
  match node.unwrapParens with
  | .mk (.reference _) _ _ => true
  | .mk (.privateMember ..) _ _ => true
  | .mk .chain _ [.mk (.privateMember ..) _ _] => true
  | _ => false

def isFunctionDeclaration (node : Node) : Bool :=
  match node.shape with
  | .functionNode .declaration .. => true
  | _ => false

def setsPrototype : Node → Bool
  | .mk .property _ [.mk (.name key) _ _, _] => key == "__proto__"
  | .mk .property _ [.mk (.string key _) _ _, _] => key == "__proto__"
  | _ => false

/-- Whether the first part of a loop over a list cannot be its target: only one variable without a type or
value can, or what can be assigned. -/
def hasWrongTarget (parts : List Node) : Bool :=
  match parts with
  | .mk (.varDeclaration ..) _ declarators :: _ =>
    declarators.length != 1 || declarators.any fun declarator =>
      declarator.parts.any fun part => part.shape == .typeClause || part.shape == .initializer
  | target :: _ => isProtectedTarget target
  | [] => false

def isDefaultCase (node : Node) : Bool := node.shape == .switchCase true

/-! ### Rules for types -/

def isBuiltinType (name : String) : Bool :=
  ["any", "unknown", "never", "number", "bigint", "boolean", "string", "symbol", "void", "object",
    "undefined"].contains name

def namesBuiltinType (parts : List Node) : Bool := ((parts.findSome? Node.bindingName?).map isBuiltinType).getD false

def isVariant (part : Node) : Bool :=
  match part with
  | .mk .typeParameters _ list => list.any fun parameter => parameter.shape == .typeParameter true
  | _ => false

/-- Whether type parameters of a node are marked by `in` or `out` though it declares no type. -/
def hasStrayVariance (node : Node) : Bool :=
  match node.shape with
  | .classNode .. | .interfaceDeclaration | .typeAlias => false
  | _ => node.parts.any isVariant

/-- Whether the value behind a member of an enumeration can be counted on from the given one. -/
def isCountable (value : Node) : Bool :=
  match value.shape with
  | .number _ | .reference _ | .member .. | .index _ | .binary _ | .unary _ => true
  | _ => false

/-- Whether members of an enumeration lack a value; `counts` tells whether the one before has a successor. -/
def lacksValue (counts : Bool) : List Node → Bool
  | [] => false
  | .mk .enumMember _ parts :: rest =>
    match parts.find? fun part => part.shape == .initializer with
    | some value => lacksValue (value.parts.all isCountable) rest
    | none => !counts || lacksValue counts rest
  | _ :: rest => lacksValue counts rest

/-! ### Rules for parameters -/

def isRequired (node : Node) : Bool :=
  match node with
  | .mk (.param optional _) _ parts => !optional && !parts.any fun part => part.shape == .initializer
  | _ => false

def isOptional (node : Node) : Bool :=
  match node.shape with
  | .param optional _ => optional
  | _ => false

/-- Whether a required parameter follows an optional one. -/
def requiresAfterOptional : List Node → Bool
  | [] => false
  | node :: rest => (isOptional node && rest.any isRequired) || requiresAfterOptional rest

def isMemberParam (node : Node) : Bool :=
  match node.shape with
  | .param _ mods => mods.access.isSome || mods.isReadonly || mods.isOverride
  | _ => false

def hasMemberParam (parts : List Node) : Bool :=
  match parts.find? fun part => part.shape == .params with
  | some list => list.parts.any isMemberParam
  | none => false

def isSimpleParam (node : Node) : Bool :=
  match node with
  | .mk (.param ..) _ parts =>
    parts.any (fun part => part.bindingName?.isSome) && !parts.any fun part => part.shape == .initializer
  | .mk .restParam _ _ => false
  | _ => true

def asksStrict : Node → Bool
  | .mk .expressionStatement _ [.mk (.string value _) _ _] => value == "use strict"
  | _ => false

/-- Whether the parts of a function ask for strict code though a parameter of it is not simple. -/
def hasLateStrict (parts : List Node) : Bool :=
  parts.any (fun part => part.shape == .directives && part.parts.any asksStrict) &&
    parts.any fun part => part.shape == .params && !part.parts.all isSimpleParam

/-! ### Rules for classes -/

def hasBody (node : Node) : Bool :=
  match node.parts.getLast? with
  | some function => function.parts.any fun part => part.shape == .body
  | none => false

/-- Whether a member is not implemented though it has to be: an accessor that is not abstract, a constructor
that declares members, and one that is marked as abstract. -/
def lacksBody (node : Node) : Bool :=
  match node.shape with
  | .method .constructor mods _ =>
    mods.isAbstract || !hasBody node && node.parts.any fun part => hasMemberParam part.parts
  | .method .getter mods _ => !mods.isAbstract && !hasBody node
  | .method .setter mods _ => !mods.isAbstract && !hasBody node
  | _ => false

def isConstructor (node : Node) : Bool :=
  match node.shape with
  | .method .constructor _ _ => hasBody node
  | _ => false

/-- A member of a class by what tells it from others. -/
structure ClassEntry where
  name : String
  isPrivate : Bool
  isStatic : Bool
  accessor : Option MethodKind
deriving DecidableEq

/-- The static name of a key, and whether it is private. -/
def keyName? : Node → Option (String × Bool)
  | .mk (.name text) _ _ => some (text, false)
  | .mk (.privateName text) _ _ => some (text, true)
  | .mk (.string value _) _ _ => some (value, false)
  | .mk .computedKey _ [.mk (.string value _) _ _] => some (value, false)
  | _ => none

def memberKey? (node : Node) : Option Node := node.parts.find? fun part => part.shape != .decorator

/-- The entry of a class member, unless it is a constructor or has no body. -/
def classEntry? (node : Node) : Option ClassEntry := do
  let (name, isPrivate) ← (memberKey? node).bind keyName?
  match node.shape with
  | .field mods _ => some ⟨name, isPrivate, mods.isStatic, none⟩
  | .method kind mods _ =>
    if kind == .constructor || !hasBody node then none
    else some ⟨name, isPrivate, mods.isStatic, if kind == .method then none else some kind⟩
  | _ => none

/-- Whether a member repeats another one of the same name: all but a getter and a setter do. -/
def ClassEntry.repeats (new old : ClassEntry) : Bool :=
  new.isPrivate == old.isPrivate && new.isStatic == old.isStatic &&
    (new.accessor.isNone || old.accessor.isNone || new.accessor == old.accessor)

/-- Whether a member repeats the one of its name before it; the last comes first. -/
def hasRepetition : List ClassEntry → Bool
  | [] => false
  | entry :: earlier =>
    (match earlier.find? fun other => other.name == entry.name with
      | some other => entry.repeats other
      | none => false) || hasRepetition earlier

def memberModifiers (node : Node) : Modifiers :=
  match node.shape with
  | .field mods _ => mods
  | .method _ mods _ => mods
  | _ => {}

/-- Whether an abstract member stands in a class that is not, or has a body or value. -/
def isMisplacedAbstract (inAbstract : Bool) (node : Node) : Bool :=
  (memberModifiers node).isAbstract &&
    (!inAbstract || hasBody node || node.parts.any fun part => part.shape == .initializer)

def isSignature (node : Node) : Bool :=
  match node.shape with
  | .method _ mods optional => !mods.isAbstract && !optional && !hasBody node
  | _ => false

def sharesName (first second : Node) : Bool :=
  match second.shape with
  | .method .. => (memberKey? first).bind keyName? == (memberKey? second).bind keyName?
  | _ => false

/-- Whether the signature of a method is not followed by another one or an implementation. -/
def lacksImplementation : List Node → Bool
  | [] => false
  | [last] => isSignature last
  | first :: second :: rest => (isSignature first && !sharesName first second) || lacksImplementation (second :: rest)

/-- Whether the members of a class with the given modifiers break a rule. -/
def hasFaultyMembers (mods : Modifiers) (members : List Node) : Bool :=
  (members.filter isConstructor).length > 1 || hasRepetition (members.filterMap classEntry?).reverse ||
    members.any (isMisplacedAbstract mods.isAbstract) ||
    (!mods.isDeclared && (lacksImplementation members || members.any lacksBody))

def isNamelessClass : Node → Bool
  | .mk (.classNode true _) _ parts => parts.all fun part => part.bindingName?.isNone
  | _ => false

/-! ### All rules for single nodes -/

def breaksRule : Node → Bool
  | .mk (.reference name) _ _ => isReservedName name
  | .mk (.labeled label) _ parts => isReservedName label || parts.any isFunctionDeclaration
  | .mk (.number legacy) _ _ => legacy
  | .mk (.string _ legacy) _ _ => legacy
  | .mk .withStatement _ _ => true
  | .mk .typeClause _ [.mk (.type .optional) _ [_]] => true
  | .mk .typeClause _ [.mk (.type .nonNull) _ [_]] => true
  | .mk (.type .function) _ parts => hasMemberParam parts
  | .mk (.type .constructor) _ parts => hasMemberParam parts
  | .mk (.type .member) _ parts => hasMemberParam parts
  | .mk .typeAlias _ parts => namesBuiltinType parts
  | .mk .interfaceDeclaration _ parts => namesBuiltinType parts
  | .mk (.typeParameter _) _ parts => namesBuiltinType parts
  | .mk (.importEquals isTypeOnly) _ parts => isTypeOnly && parts.length > 1
  | .mk (.enumDeclaration a b) span parts => lacksValue true parts || isClashing (.mk (.enumDeclaration a b) span parts)
  | .mk .jsxContainer _ [.mk .sequence _ _] => true
  | .mk .arrayPattern _ parts => parts.any isProtectedTarget
  | .mk .restPattern _ parts => parts.any isProtectedTarget
  | .mk .patternShorthand _ parts => parts.any isProtectedTarget
  | .mk .patternProperty _ [_, target] => isProtectedTarget target
  | .mk .defaultPattern _ [target, _] => isProtectedTarget target
  | .mk (.unary "delete") _ [operand] => isUndeletable operand
  | .mk (.assign _) _ [target, _] => isProtectedTarget target
  | .mk (.update _ _) _ [target] => isProtectedTarget target
  | .mk .object _ parts => (parts.filter setsPrototype).length > 1
  | .mk .switchStatement span parts =>
    (parts.filter isDefaultCase).length > 1 || isClashing (.mk .switchStatement span parts)
  | .mk .ifStatement _ parts => parts.any isFunctionDeclaration
  | .mk .whileStatement _ parts => parts.any isFunctionDeclaration
  | .mk .doStatement _ parts => parts.any isFunctionDeclaration
  | .mk .forStatement span parts => parts.any isFunctionDeclaration || isClashing (.mk .forStatement span parts)
  | .mk .forInStatement span parts =>
    parts.any isFunctionDeclaration || hasWrongTarget parts || isClashing (.mk .forInStatement span parts)
  | .mk (.forOfStatement isAwait) span parts =>
    parts.any isFunctionDeclaration || hasWrongTarget parts ||
      isClashing (.mk (.forOfStatement isAwait) span parts)
  | .mk .params span parts => requiresAfterOptional parts || isClashing (.mk .params span parts)
  | .mk (.method kind _ _) _ parts => kind != .constructor && parts.any fun part => hasMemberParam part.parts
  | .mk (.methodProperty _) _ parts => parts.any fun part => hasMemberParam part.parts
  | .mk (.functionNode form a b c) span parts =>
    (form != .member && hasMemberParam parts) || hasLateStrict parts ||
      isClashing (.mk (.functionNode form a b c) span parts)
  | .mk (.arrow a b) span parts =>
    hasMemberParam parts || hasLateStrict parts || isClashing (.mk (.arrow a b) span parts)
  | .mk (.classNode _ mods) _ parts =>
    match parts.find? fun part => part.shape == .classBody with
    | some body => hasFaultyMembers mods body.parts
    | none => false
  | .mk .exportDefault _ _ => false
  | node => isClashing node || node.parts.any isNamelessClass

/-- Whether a node breaks a rule that depends only on its parts. -/
def isFaulty (node : Node) : Bool := breaksRule node || hasStrayVariance node

/-! ### Rules that depend on the surroundings -/

structure Surroundings where
  inLoop : Bool := false
  inSwitch : Bool := false
  /-- The labels around, each with whether it stands before a loop. -/
  labels : List (String × Bool) := []
  inFunction : Bool := false
  inParam : Bool := false
  /-- The node is part of a static block, and of no scope in it. -/
  inStaticBlock : Bool := false
  inAmbient : Bool := false
  isTopLevel : Bool := true
  inNamespace : Bool := false
  inField : Bool := false
  superMember : Bool := false
  superCall : Bool := false
  isDerived : Bool := false
  privateNames : List String := []

namespace Surroundings

def loop (s : Surroundings) : Surroundings := { s with inLoop := true }

def body (s : Surroundings) : Surroundings := { s with inLoop := false, inSwitch := false, labels := [] }

/-- Inside of a function that is no method; `isDeclared` tells whether it has no body. -/
def function (s : Surroundings) (isDeclared : Bool) : Surroundings :=
  { s.body with
    inFunction := true, inParam := false, inAmbient := isDeclared, inField := false, superMember := false
    superCall := false }

/-- Inside of a namespace; a module that is named by a string is none. -/
def space (s : Surroundings) (isDeclared : Bool) (parts : List Node) : Surroundings :=
  { s with inAmbient := isDeclared, inNamespace := parts.any fun part => part.bindingName?.isSome }

def method (s : Surroundings) (kind : MethodKind) : Surroundings :=
  { s.body with
    inFunction := true, inField := false, superMember := true
    superCall := kind == .constructor && s.isDerived }

def field (s : Surroundings) : Surroundings :=
  { s.body with inFunction := true, inField := true, superMember := true, superCall := false }

end Surroundings

def opensScope (node : Node) : Bool :=
  match node.shape with
  | .block | .namespaceBody | .functionNode .. | .arrow .. | .classNode .. | .catchClause | .forStatement
  | .forInStatement | .forOfStatement _ | .switchStatement => true
  | _ => false

/-- Whether the statements that are parts of a node stand at the top level if the node does. -/
def keepsLevel (node : Node) : Bool :=
  match node.shape with
  | .program | .namespaceBody | .namespaceDeclaration _ | .globalDeclaration | .exportNamed _ => true
  | _ => false

def isLoop : Node → Bool
  | .mk (.labeled _) _ [inner] => isLoop inner
  | .mk .forStatement _ _ => true
  | .mk .forInStatement _ _ => true
  | .mk (.forOfStatement _) _ _ => true
  | .mk .whileStatement _ _ => true
  | .mk .doStatement _ _ => true
  | _ => false

def declaredPrivateNames (parts : List Node) : List String :=
  match parts.find? fun part => part.shape == .classBody with
  | some body => body.parts.filterMap fun member =>
    match (memberKey? member).map Node.shape with
    | some (.privateName name) => some name
    | _ => none
  | none => []

def isStray (s : Surroundings) : Node → Bool
  | .mk (.breakStatement none) _ _ => !(s.inLoop || s.inSwitch)
  | .mk (.breakStatement (some label)) _ _ => (s.labels.lookup label).isNone
  | .mk (.continueStatement none) _ _ => !s.inLoop
  | .mk (.continueStatement (some label)) _ _ => s.labels.lookup label != some true
  | .mk (.labeled label) _ _ => (s.labels.lookup label).isSome
  | .mk (.call _) _ (.mk .super _ _ :: _) => !s.superCall
  | .mk (.member ..) _ (.mk .super _ _ :: _) => !s.superMember
  | .mk (.index _) _ (.mk .super _ _ :: _) => !s.superMember
  | .mk (.privateMember ..) _ (.mk .super _ _ :: _) => true
  | .mk (.privateMember name _) _ _ => !s.privateNames.contains name
  | .mk (.binary _) _ (.mk (.privateName name) _ _ :: _) => !s.privateNames.contains name
  | .mk (.reference name) _ _ => s.inField && name == "arguments"
  | .mk (.binding name) _ _ => !s.inAmbient && (isReservedName name || isProtectedName name)
  | .mk .newTarget _ _ => !s.inFunction
  | .mk .await _ _ => s.inParam || s.inStaticBlock
  | .mk .yield _ _ => s.inParam
  | .mk (.namespaceDeclaration _) _ _ => !s.isTopLevel
  | .mk .globalDeclaration _ _ => !s.isTopLevel
  | .mk .exportAssignment _ _ => s.inNamespace
  | _ => false

/-- What surrounds the parts of a node by its shape. -/
def Surroundings.within (s : Surroundings) : Node → Surroundings
  | .mk .forStatement _ _ => s.loop
  | .mk .forInStatement _ _ => s.loop
  | .mk (.forOfStatement _) _ _ => s.loop
  | .mk .whileStatement _ _ => s.loop
  | .mk .doStatement _ _ => s.loop
  | .mk .switchStatement _ _ => { s with inSwitch := true }
  | .mk (.labeled label) _ [inner] => { s with labels := (label, isLoop inner) :: s.labels }
  | .mk (.functionNode .declaration _ _ isDeclared) _ _ => s.function isDeclared
  | .mk (.functionNode .expression ..) _ _ => s.function false
  | .mk (.functionNode .member ..) _ _ => { s with inParam := false }
  | .mk (.arrow ..) _ _ => { s.body with inParam := false }
  | .mk .params _ _ => { s with inAmbient := false }
  | .mk (.param ..) _ _ => { s with inParam := true }
  | .mk .restParam _ _ => { s with inParam := true }
  | .mk (.varDeclaration _ isDeclared) _ _ => { s with inAmbient := isDeclared }
  | .mk (.enumDeclaration _ isDeclared) _ _ => { s with inAmbient := isDeclared }
  | .mk (.namespaceDeclaration isDeclared) _ parts => s.space isDeclared parts
  | .mk (.method kind ..) _ _ => s.method kind
  | .mk (.methodProperty kind) _ _ => { s with isDerived := false }.method kind
  | .mk (.field ..) _ _ => s.field
  | .mk .staticBlock _ _ => { s.field with inStaticBlock := true }
  | .mk (.classNode _ mods) _ parts =>
    { s with
      inAmbient := mods.isDeclared
      isDerived := parts.any fun part => part.shape == .extendsClause
      privateNames := declaredPrivateNames parts ++ s.privateNames }
  | _ => s

def Surroundings.inside (s : Surroundings) (node : Node) : Surroundings :=
  let inner := s.within node
  { inner with
    isTopLevel := s.isTopLevel && keepsLevel node
    inStaticBlock := inner.inStaticBlock && !opensScope node }

mutual
def hasStray (s : Surroundings) : Node → Bool
  | .mk shape span parts => isStray s (.mk shape span parts) || hasStrayOf (s.inside (.mk shape span parts)) parts

def hasStrayOf (s : Surroundings) : List Node → Bool
  | [] => false
  | node :: rest => hasStray s node || hasStrayOf s rest
end

def hasEarlyError (root : Node) : Bool := root.nodes.any isFaulty || hasStray {} root

/-- Whether a text is a script without early errors; `jsx` tells whether markup is part of the language. -/
def isSound (jsx : Bool) (source : List Char) : Bool :=
  match parse? jsx source with
  | some tree => !hasEarlyError tree.root
  | none => false

end Polyview.Script
