import Polyview.Script.Node

/-! # Scopes

A scope is a part of a script with names of its own. What is declared in it are its parameters, the
declarations among its statements, and the variables that statements inside of it declare by `var`. Two
declarations of a name clash unless their meanings can be merged. -/

namespace Polyview.Script

inductive Meaning
  | parameter | variable | lexical | function | classMeaning | enumMeaning | constEnum | enumMember
  | space
  /-- A namespace that holds only types. -/
  | typeSpace
  | typeAlias | interface | typeParameter | imported
deriving DecidableEq, Repr

namespace Meaning

def isValue : Meaning → Bool
  | .typeSpace | .typeAlias | .interface | .typeParameter | .imported => false
  | _ => true

def isType : Meaning → Bool
  | .classMeaning | .enumMeaning | .constEnum | .enumMember | .typeAlias | .interface
  | .typeParameter => true
  | _ => false

/-- Whether a declaration cannot follow another one of the same name. -/
def clashes (new old : Meaning) : Bool :=
  match new with
  | .parameter | .lexical => old.isValue
  | .variable => old.isValue && !(old == .variable || old == .parameter || old == .function)
  | .function =>
    old.isValue && !(old == .function || old == .variable || old == .parameter || old == .space ||
      old == .classMeaning)
  | .classMeaning => (old.isValue || old.isType) && !(old == .space || old == .interface || old == .function)
  | .enumMeaning => (old.isValue || old.isType) && !(old == .enumMeaning || old == .space)
  | .constEnum => (old.isValue || old.isType) && old != .constEnum
  | .enumMember => old == .enumMember
  | .space => old.isValue && !(old == .function || old == .classMeaning || old == .enumMeaning || old == .space)
  | .typeSpace => false
  | .typeAlias => old.isType
  | .interface => old.isType && !(old == .interface || old == .classMeaning)
  | .typeParameter => old.isType && old != .typeParameter
  | .imported => old == .imported

end Meaning

abbrev Declared := String × Meaning

/-! ### Names in patterns -/

mutual
def patternNames : Node → List String
  | .mk (.binding name) _ _ => [name]
  | .mk .arrayPattern _ parts => patternNamesOf parts
  | .mk .objectPattern _ parts => patternNamesOf parts
  | .mk .restPattern _ [target] => patternNames target
  | .mk .restParam _ parts => patternNamesOf parts
  | .mk .patternProperty _ [_, target] => patternNames target
  | .mk .patternShorthand _ [target] => patternNames target
  | .mk .defaultPattern _ [target, _] => patternNames target
  | _ => []

def patternNamesOf : List Node → List String
  | [] => []
  | node :: rest => patternNames node ++ patternNamesOf rest
end

def declaratorNames (declarator : Node) : List String := (declarator.part?.map patternNames).getD []

def paramNames (node : Node) : List String :=
  match node.shape with
  | .param .. => patternNamesOf node.parts
  | .restParam => patternNames node
  | _ => []

/-! ### Declarations -/

mutual
/-- The names that statements inside of a node declare by `var`, up to the functions and classes in it. -/
def hoistedNames : Node → List String
  | .mk (.varDeclaration .varKind _) _ parts => parts.flatMap declaratorNames
  | .mk (.functionNode ..) _ _ => []
  | .mk (.arrow ..) _ _ => []
  | .mk (.classNode ..) _ _ => []
  | .mk (.namespaceDeclaration _) _ _ => []
  | .mk .globalDeclaration _ _ => []
  | .mk _ _ parts => hoistedNamesOf parts

def hoistedNamesOf : List Node → List String
  | [] => []
  | node :: rest => hoistedNames node ++ hoistedNamesOf rest
end

/-- The name that a declaration binds itself, with a meaning. -/
def ownName (parts : List Node) (meaning : Meaning) : List Declared :=
  match parts.filterMap Node.bindingName? with
  | name :: _ => [(name, meaning)]
  | [] => []

mutual
/-- Whether a statement of a namespace is there when the script runs: types are not. -/
def isRuntime : Node → Bool
  | .mk .interfaceDeclaration _ _ => false
  | .mk .typeAlias _ _ => false
  | .mk (.importEquals _) _ _ => false
  | .mk (.exportNamed _) _ [inner] => isRuntime inner
  | .mk (.namespaceDeclaration _) _ parts => holdsRuntime parts
  | .mk .namespaceBody _ parts => holdsRuntime parts
  | .mk (.binding _) _ _ => false
  | .mk (.name _) _ _ => false
  | _ => true

def holdsRuntime : List Node → Bool
  | [] => false
  | node :: rest => isRuntime node || holdsRuntime rest
end

/-- What a statement declares in the scope that it stands in. -/
def declarations : Node → List Declared
  | .mk (.varDeclaration kind _) _ parts =>
    let meaning := if kind == .varKind then Meaning.variable else .lexical
    (parts.flatMap declaratorNames).map fun name => (name, meaning)
  | .mk (.functionNode .declaration _ _ _) _ parts => ownName parts .function
  | .mk (.classNode true _) _ parts => ownName parts .classMeaning
  | .mk .interfaceDeclaration _ parts => ownName parts .interface
  | .mk .typeAlias _ parts => ownName parts .typeAlias
  | .mk (.enumDeclaration isConst _) _ parts => ownName parts (if isConst then .constEnum else .enumMeaning)
  | .mk (.namespaceDeclaration _) _ parts => ownName parts (if holdsRuntime parts then .space else .typeSpace)
  | .mk (.importEquals _) _ parts => ownName parts .imported
  | .mk (.importDeclaration _ _) _ parts => parts.flatMap fun part => ownName part.parts .imported
  | .mk (.exportNamed _) _ [inner] => declarations inner
  | .mk .exportDefault _ [inner] => declarations inner
  | .mk (.labeled _) _ [inner] => declarations inner
  | node => (hoistedNames node).map fun name => (name, .variable)

/-! ### What scopes declare -/

def enumMemberName? (member : Node) : Option String :=
  match member.part?.map Node.shape with
  | some (.name text) => some text
  | some (.string value _) => some value
  | _ => none

def typeParameterNames (parts : List Node) : List Declared :=
  match parts.find? fun part => part.shape == .typeParameters with
  | some list => list.parts.flatMap fun part => ownName part.parts .typeParameter
  | none => []

def parameterNames (parts : List Node) : List String :=
  match parts.find? fun part => part.shape == .params with
  | some list => list.parts.flatMap paramNames
  | none => []

def functionDeclarations (parts : List Node) : List Declared :=
  let body := match parts.find? fun part => part.shape == .body with
    | some body => body.parts.flatMap declarations
    | none => []
  typeParameterNames parts ++ (parameterNames parts).map (fun name => (name, .parameter)) ++ body

/-- What an error handler declares: its parameter, and what its block does. -/
def catchDeclarations (parts : List Node) : List Declared :=
  parts.flatMap fun part =>
    match part with
    | .mk .block _ statements => statements.flatMap declarations
    | .mk (.binding name) _ _ => [(name, .parameter)]
    | node => (patternNames node).map fun name => (name, .lexical)

def scopeDeclarations : Node → List Declared
  | .mk .program _ parts => parts.flatMap declarations
  | .mk .block _ parts => parts.flatMap declarations
  | .mk .namespaceBody _ parts => parts.flatMap declarations
  | .mk .staticBlock _ parts => parts.flatMap declarations
  | .mk (.functionNode ..) _ parts => functionDeclarations parts
  | .mk (.arrow ..) _ parts => functionDeclarations parts
  | .mk .catchClause _ parts => catchDeclarations parts
  | .mk .forStatement _ parts => parts.flatMap declarations
  | .mk .forInStatement _ parts => parts.flatMap declarations
  | .mk (.forOfStatement _) _ parts => parts.flatMap declarations
  | .mk .switchStatement _ parts => parts.flatMap fun part => part.parts.flatMap declarations
  | .mk (.enumDeclaration ..) _ parts => (parts.filterMap enumMemberName?).map fun name => (name, .enumMember)
  | .mk .params _ parts => (parts.flatMap paramNames).map fun name => (name, .parameter)
  | _ => []

/-- Whether a declaration clashes with an earlier one; the last comes first. -/
def hasClash : List Declared → Bool
  | [] => false
  | (name, meaning) :: earlier =>
    (earlier.any fun other => other.1 == name && meaning.clashes other.2) || hasClash earlier

def isClashing (node : Node) : Bool := hasClash (scopeDeclarations node).reverse

end Polyview.Script
