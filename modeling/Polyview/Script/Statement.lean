import Polyview.Script.Expression

/-! # Statements

Statements and declarations. Words such as `type` or `declare` start a declaration only if what follows
them on the line can be declared. -/

namespace Polyview.Script

/-! ### Variables -/

def isDestructuring (node : Node) : Bool :=
  match node.shape with
  | .arrayPattern | .objectPattern => true
  | _ => false

def VarKind.isUsing : VarKind → Bool
  | .usingKind | .awaitUsingKind => true
  | _ => false

/-- Reads the mark of a variable that gets its value later, which only a plain name can have. -/
def definiteMark (target : Node) : Parse Bool := do
  if isDestructuring target || (← onNewLine) then return false else eat .bang

/-- Reads a declared variable. Without a value there are only plain names that are not constant, unless the
value comes from a loop. A name that gets its value later has a type. -/
def declarator (g : Grammar) (kind : VarKind) (inLoop : Bool) : Parse Node := do
  let start ← startOffset
  let target ← g.pattern
  flawIf (kind.isUsing && isDestructuring target)
  let definite ← definiteMark target
  let type ← typeClause? g
  let value ← initializer? g
  flawIf (definite && (type.isEmpty || !value.isEmpty))
  let context ← read
  flawIf (value.isEmpty && !inLoop && !context.inAmbient &&
    (isDestructuring target || (kind != .varKind && kind != .letKind)))
  finish start .declarator (target :: type ++ value)

/-- Whether `let` is a variable if a token stands behind it. -/
def TokenKind.followsLetVariable : TokenKind → Bool
  | .punct (.assign _) | .punct .dot | .punct .lparen | .punct .semicolon => true
  | kind =>
    match binaryOp? kind with
    | some (_, isLogical, symbol) => !isLogical && symbol != "as" && symbol != "satisfies"
    | none => false

/-- Whether `let` here starts a declaration: in the head of a loop if something to declare follows, and
elsewhere unless what follows shows that it is a variable. -/
def seesLet (inLoop : Bool) : Parse Bool := do
  if ← seesWord .kwLet then
    nextIs fun t =>
      if inLoop then t.kind.isIdentifier || t.kind == .punct .lbracket || t.kind == .punct .lbrace
      else !t.kind.followsLetVariable
  else return false

def seesUsing : Parse Bool := do
  if ← seesWord .kwUsing then
    nextIs fun t => t.kind.isIdentifier && !t.newline && t.kind != .word "of" (some .kwOf)
  else return false

def varKind? (inLoop : Bool) : Parse (Option VarKind) := do
  match ← keyword? with
  | some .kwVar => return some .varKind
  | some .kwConst => return some .constKind
  | some .kwLet => if ← seesLet inLoop then return some .letKind else return none
  | some .kwUsing => if ← seesUsing then return some .usingKind else return none
  | some .kwAwait =>
    let isUsing ← ahead do
      next
      if ← onNewLine then return false else seesUsing
    return if isUsing then some .awaitUsingKind else none
  | _ => return none

def declarators (g : Grammar) (kind : VarKind) (inLoop : Bool) : Parse (List Node) := do
  if kind == .awaitUsingKind then next
  next
  commaList1 (declarator g kind inLoop)

def varStatement (g : Grammar) (start : Nat) (kind : VarKind) : Parse Node := do
  let context ← read
  let parts ← declarators g kind false
  endStatement
  finish start (.varDeclaration kind context.inAmbient) parts

/-! ### Type declarations -/

/-- Whether a name that can be declared follows on the same line. -/
def nextIsNameOnLine : Parse Bool := nextIs fun t => t.kind.isIdentifier && !t.newline

def interfaceParent (g : Grammar) : Parse Node := do
  let start ← startOffset
  let head ← reference
  let name ← qualifiedName start head
  let arguments ← if ← seesLess then pure [← typeArguments g] else pure []
  finish start (.type .reference) (name :: arguments)

def interfaceParents (g : Grammar) : Parse (List Node) := do
  let start ← startOffset
  if ← eatWord .kwExtends then
    let types ← commaList1 (interfaceParent g)
    return [← finish start .extendsClause types]
  else return []

def interfaceDeclaration (g : Grammar) (start : Nat) : Parse Node := do
  expectWord .kwInterface
  let name ← binding
  let typeParams ← typeParameters? g
  let parents ← interfaceParents g
  let members ← typeMembers g
  finish start .interfaceDeclaration (name :: typeParams ++ parents ++ members)

/-- Reads what a type alias stands for: a type, or a type that is built in. -/
def aliasedType (g : Grammar) : Parse Node := do
  if (← seesWord .kwIntrinsic) && !(← nextIs fun t => t.kind == .punct .dot) then leaf (.type .keyword)
  else g.type

def typeAlias (g : Grammar) (start : Nat) : Parse Node := do
  expectWord .kwType
  let name ← binding
  let typeParams ← typeParameters? g
  expect (.assign .plain)
  let type ← aliasedType g
  endStatement
  finish start .typeAlias (name :: typeParams ++ [type])

def isConstantKey : Node → Bool
  | .mk .computedKey _ [.mk (.string ..) _ _] => true
  | .mk .computedKey _ [.mk .template _ []] => true
  | _ => false

def enumKey (g : Grammar) : Parse Node := do
  match ← tokenKind with
  | .word .. | .escapedWord _ | .string .. => propertyKey g
  | .punct .lbracket =>
    let key ← propertyKey g
    if isConstantKey key then return key else reject
  | _ => reject

def enumMember (g : Grammar) : Parse Node := do
  let start ← startOffset
  let key ← enumKey g
  let value ← initializer? g
  finish start .enumMember (key :: value)

def enumDeclaration (g : Grammar) (start : Nat) (isConst : Bool) : Parse Node := do
  let context ← read
  expectWord .kwEnum
  let name ← binding
  expect .lbrace
  let members ← inBrackets (commaList .rbrace (enumMember g))
  expect .rbrace
  finish start (.enumDeclaration isConst context.inAmbient) (name :: members)

def dottedNames : Parse (List Node) :=
  manyUntil (do return !(← sees .dot)) do
    next
    plainName

def namespaceBody (g : Grammar) : Parse Node := do
  let start ← startOffset
  expect .lbrace
  let statements ← inBrackets (manyUntil (sees .rbrace) g.statement)
  expect .rbrace
  finish start .namespaceBody statements

def namespaceDeclaration (g : Grammar) (start : Nat) : Parse Node := do
  let context ← read
  let shape := Shape.namespaceDeclaration context.inAmbient
  next
  match ← tokenKind with
  | .string value legacy =>
    let name ← leaf (.string value legacy)
    if ← sees .lbrace then
      let body ← namespaceBody g
      finish start shape [name, body]
    else
      endStatement
      finish start shape [name]
  | _ =>
    let name ← binding
    let names ← dottedNames
    let body ← namespaceBody g
    finish start shape (name :: names ++ [body])

/-! ### Declarations -/

/-- Whether a declaration that can be marked as `declare` follows on the same line. -/
def Token.startsDeclaration (t : Token) : Bool :=
  !t.newline && match t.kind with
    | .word _ (some keyword) =>
      match keyword with
      | .kwVar | .kwLet | .kwConst | .kwFunction | .kwClass | .kwEnum | .kwInterface | .kwType
      | .kwNamespace | .kwModule | .kwGlobal | .kwAbstract | .kwAsync | .kwImport => true
      | _ => false
    | _ => false

/-- Reads a declaration that waits for nothing. -/
def withoutAwait {α : Type} (inner : Parse α) : Parse α :=
  withReader (fun context => { context with inAsync := false }) inner

def ambient {α : Type} (inner : Parse α) : Parse α :=
  withReader (fun context => { context with inAmbient := true }) (withoutAwait inner)

/-- Whether a token behind `global` makes it a declaration. -/
def TokenKind.followsGlobal : TokenKind → Bool
  | .punct .lbrace | .word _ none | .word _ (some .kwExport) => true
  | _ => false

def moduleName : Parse String := do
  match ← tokenKind with
  | .string value _ =>
    next
    return value
  | _ => reject

/-- Reads an alias such as `import a = b.c` behind its name. -/
def importEqualsRest (start : Nat) (isTypeOnly : Bool) (name : Node) : Parse Node := do
  expect (.assign .plain)
  let valueStart ← startOffset
  let isRequire ← if ← seesWord .kwRequire then nextIs fun t => t.kind == .punct .lparen else pure false
  let value ← if isRequire then
      next
      expect .lparen
      let _ ← moduleName
      expect .rparen
      pure []
    else
      let head ← typeName
      pure [← qualifiedName valueStart head]
  endStatement
  finish start (.importEquals isTypeOnly) (name :: value)

def functionDeclaration (g : Grammar) (start : Nat) (mods : Modifiers) (isAsync : Bool) : Parse Node := do
  let function ← functionWithName g start .declaration isAsync false
  flawIf (mods.isDeclared && isImplemented function)
  return function

/-- Reads a declaration if one starts here. Its marks and modifiers, which start at the given offset, have
been read. -/
def declaration? (g : Grammar) (start : Nat) (mods : Modifiers) (marks : List Node) :
    Parse (Option Node) := do
  match ← keyword? with
  | some .kwClass => return some (← classRest g start true mods marks)
  | some .kwAbstract =>
    if ← nextIs fun t => t.kind == .word "class" (some .kwClass) && !t.newline then
      next
      return some (← withoutAwait (classRest g start true { mods with isAbstract := true } marks))
    else return none
  | some .kwFunction => return some (← functionDeclaration g start mods false)
  | some .kwAsync =>
    if ← nextIs fun t => t.kind == .word "function" (some .kwFunction) && !t.newline then
      next
      return some (← functionDeclaration g start mods true)
    else return none
  | some .kwInterface =>
    if ← nextIsNameOnLine then return some (← withoutAwait (interfaceDeclaration g start)) else return none
  | some .kwType => if ← nextIsNameOnLine then return some (← withoutAwait (typeAlias g start)) else return none
  | some .kwEnum => return some (← withoutAwait (enumDeclaration g start false))
  | some .kwNamespace =>
    if ← nextIsNameOnLine then return some (← withoutAwait (namespaceDeclaration g start)) else return none
  | some .kwModule =>
    let isModule ← nextIs fun t => !t.newline && (t.kind.isIdentifier || match t.kind with
      | .string .. => true
      | _ => false)
    if isModule then return some (← withoutAwait (namespaceDeclaration g start)) else return none
  | some .kwGlobal =>
    if ← nextIs fun t => t.kind.followsGlobal then
      next
      let body ← withoutAwait (namespaceBody g)
      return some (← finish start .globalDeclaration [body])
    else return none
  | some .kwImport =>
    if mods.isDeclared then
      next
      let name ← binding
      return some (← importEqualsRest start false name)
    else return none
  | some .kwConst =>
    if ← nextIs fun t => t.kind == .word "enum" (some .kwEnum) && !t.newline then
      next
      return some (← withoutAwait (enumDeclaration g start true))
    else return some (← varStatement g start .constKind)
  | _ =>
    match ← varKind? false with
    | some kind => return some (← varStatement g start kind)
    | none => return none

def anyDeclaration? (g : Grammar) (start : Nat) (marks : List Node) : Parse (Option Node) := do
  if (← seesWord .kwDeclare) && (← nextIs Token.startsDeclaration) then
    next
    match ← ambient (declaration? g start { isDeclared := true } marks) with
    | some node => return some node
    | none => reject
  else declaration? g start {} marks

/-! ### Control flow -/

/-- Whether a statement can stand alone in another: it declares nothing in a block around it. -/
def standsAlone (statement : Node) : Bool :=
  match statement.shape with
  | .varDeclaration kind _ => kind == .varKind
  | .classNode .. => false
  | .functionNode _ isAsync isGenerator _ => !isAsync && !isGenerator
  | _ => true

def substatement (g : Grammar) : Parse Node := do
  let statement ← g.statement
  flawIf !(standsAlone statement)
  return statement

def block (g : Grammar) : Parse Node := do
  let start ← startOffset
  expect .lbrace
  let statements ← inBrackets (manyUntil (sees .rbrace) g.statement)
  expect .rbrace
  finish start .block statements

def condition (g : Grammar) : Parse Node := do
  expect .lparen
  let value ← inBrackets g.expression
  expect .rparen
  return value

def ifStatement (g : Grammar) (start : Nat) : Parse Node := do
  next
  let test ← condition g
  let yes ← substatement g
  let no ← if ← eatWord .kwElse then pure [← substatement g] else pure []
  finish start .ifStatement (test :: yes :: no)

def doStatement (g : Grammar) (start : Nat) : Parse Node := do
  next
  let body ← substatement g
  expectWord .kwWhile
  let test ← condition g
  let _ ← eat .semicolon
  finish start .doStatement [body, test]

def whileStatement (g : Grammar) (start : Nat) : Parse Node := do
  next
  let test ← condition g
  let body ← substatement g
  finish start .whileStatement [test, body]

def isDisposed (target : Node) : Bool :=
  match target.shape with
  | .varDeclaration kind _ => kind.isUsing
  | _ => false

/-- Reads a loop over a list or over keys behind its target; keys are not disposed of. -/
def forEachRest (g : Grammar) (start : Nat) (isAwait : Bool) (target : Node) : Parse Node := do
  if ← eatWord .kwOf then
    let list ← inBrackets (g.assignment true)
    expect .rparen
    let body ← substatement g
    finish start (.forOfStatement isAwait) [target, list, body]
  else
    expectWord .kwIn
    flawIf (isAwait || isDisposed target)
    let list ← inBrackets g.expression
    expect .rparen
    let body ← substatement g
    finish start .forInStatement [target, list, body]

def forRest (g : Grammar) (start : Nat) (isAwait : Bool) (first : List Node) : Parse Node := do
  flawIf isAwait
  expect .semicolon
  let test ← if ← sees .semicolon then pure [] else pure [← inBrackets g.expression]
  expect .semicolon
  let step ← if ← sees .rparen then pure [] else pure [← inBrackets g.expression]
  expect .rparen
  let body ← substatement g
  finish start .forStatement (first ++ test ++ step ++ [body])

def seesForEach : Parse Bool := do
  return (← seesWord .kwOf) || (← seesWord .kwIn)

/-- Whether declared variables need no value, or have one. -/
def isComplete (kind : VarKind) (parts : List Node) : Bool :=
  parts.all fun part =>
    part.parts.any (fun inner => inner.shape == .initializer) ||
      !((part.parts.head?.map isDestructuring).getD false || kind == .constKind)

def forStatement (g : Grammar) (start : Nat) : Parse Node := do
  next
  let context ← read
  let isAwait ← eatWord .kwAwait
  flawIf (isAwait && !context.inAsync)
  expect .lparen
  let headStart ← startOffset
  if ← sees .semicolon then forRest g start isAwait []
  else
    let noIn {α : Type} (rule : Parse α) : Parse α := withReader (fun context => { context with allowIn := false }) rule
    match ← varKind? true with
    | some kind =>
      let parts ← noIn (declarators g kind true)
      let declared ← finish headStart (.varDeclaration kind false) parts
      if ← seesForEach then forEachRest g start isAwait declared
      else
        flawIf !(isComplete kind parts)
        forRest g start isAwait [declared]
    | none =>
      let value ← noIn g.expression
      if ← seesForEach then
        flawIf (!isAwait && value.shape == .reference "async" && (← seesWord .kwOf))
        match target? value with
        | some target => forEachRest g start isAwait target
        | none => reject
      else forRest g start isAwait [value]

def jumpStatement (start : Nat) (shape : Option String → Shape) : Parse Node := do
  next
  if ← canEndStatement then
    endStatement
    finish start (shape none) []
  else
    let label ← identifier
    endStatement
    finish start (shape (some label)) []

def returnStatement (g : Grammar) (start : Nat) : Parse Node := do
  let context ← read
  flawIf !context.inFunction
  next
  let value ← if ← canEndStatement then pure [] else pure [← g.expression]
  endStatement
  finish start .returnStatement value

def throwStatement (g : Grammar) (start : Nat) : Parse Node := do
  next
  flawIf (← onNewLine)
  let value ← g.expression
  endStatement
  finish start .throwStatement [value]

def switchCase (g : Grammar) : Parse Node := do
  let start ← startOffset
  let isDefault ← eatWord .kwDefault
  let test ← if isDefault then pure [] else
    expectWord .kwCase
    pure [← inBrackets g.expression]
  expect .colon
  let atEnd : Parse Bool := do
    return (← sees .rbrace) || (← seesWord .kwCase) || (← seesWord .kwDefault)
  let statements ← manyUntil atEnd g.statement
  finish start (.switchCase isDefault) (test ++ statements)

def switchStatement (g : Grammar) (start : Nat) : Parse Node := do
  next
  let value ← condition g
  expect .lbrace
  let cases ← manyUntil (sees .rbrace) (switchCase g)
  expect .rbrace
  finish start .switchStatement (value :: cases)

def catchClause (g : Grammar) : Parse Node := do
  let start ← startOffset
  expectWord .kwCatch
  let head ← if ← eat .lparen then
      let target ← g.pattern
      let type ← typeClause? g
      expect .rparen
      pure (target :: type)
    else pure []
  let body ← block g
  finish start .catchClause (head ++ [body])

def tryStatement (g : Grammar) (start : Nat) : Parse Node := do
  next
  let body ← block g
  let handler ← if ← seesWord .kwCatch then pure [← catchClause g] else pure []
  let finallyStart ← startOffset
  let last ← if ← eatWord .kwFinally then
      let block ← block g
      pure [← finish finallyStart .finallyClause [block]]
    else pure []
  flawIf (handler.isEmpty && last.isEmpty)
  finish start .tryStatement (body :: handler ++ last)

def expressionStatement (g : Grammar) (start : Nat) : Parse Node := do
  let value ← g.expression
  match value, ← sees .colon with
  | .mk (.reference label) _ _, true =>
    next
    let body ← substatement g
    finish start (.labeled label) [body]
  | value, _ =>
    endStatement
    finish start .expressionStatement [value]

/-! ### Statements -/

def keywordStatement? (g : Grammar) (start : Nat) : Parse (Option Node) := do
  match ← keyword? with
  | some .kwIf => return some (← ifStatement g start)
  | some .kwDo => return some (← doStatement g start)
  | some .kwWhile => return some (← whileStatement g start)
  | some .kwFor => return some (← forStatement g start)
  | some .kwContinue => return some (← jumpStatement start .continueStatement)
  | some .kwBreak => return some (← jumpStatement start .breakStatement)
  | some .kwReturn => return some (← returnStatement g start)
  | some .kwThrow => return some (← throwStatement g start)
  | some .kwSwitch => return some (← switchStatement g start)
  | some .kwTry => return some (← tryStatement g start)
  | some .kwDebugger =>
    next
    endStatement
    return some (← finish start .debuggerStatement [])
  | some .kwWith =>
    next
    let value ← condition g
    let body ← substatement g
    return some (← finish start .withStatement [value, body])
  | _ => return none

def statement (g : Grammar) : Parse Node := do
  let start ← startOffset
  match ← tokenKind with
  | .punct .lbrace => block g
  | .punct .semicolon => leaf .emptyStatement
  | .punct .decorator =>
    let marks ← decorators g
    match ← anyDeclaration? g start marks with
    | some node =>
      match node.shape with
      | .classNode .. => return node
      | _ => reject
    | none => reject
  | _ =>
    match ← keywordStatement? g start with
    | some node => return node
    | none =>
      match ← anyDeclaration? g start [] with
      | some node => return node
      | none => expressionStatement g start

end Polyview.Script
