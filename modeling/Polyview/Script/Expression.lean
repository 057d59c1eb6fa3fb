import Polyview.Script.Function
import Polyview.Script.Markup
import Polyview.Script.Target

/-! # Expressions

Operands, accesses and calls, operators, assignments and arrow functions. A parenthesis may open the
parameters of an arrow function or an expression; which of them is decided by a few tokens ahead, and
where these do not decide by trying. -/

namespace Polyview.Script

/-! ### Literals -/

def spreadOrValue (g : Grammar) : Parse Node := do
  let start ← startOffset
  if ← eat .ellipsis then
    let value ← g.assignment true
    finish start (.spread (← sees .comma)) [value]
  else g.assignment true

def arrayLiteral (g : Grammar) : Parse Node := do
  let start ← startOffset
  expect .lbracket
  let parts ← inBrackets (manyUntil (sees .rbracket) do
    if ← sees .comma then leaf .hole
    else
      let value ← spreadOrValue g
      if !(← sees .rbracket) then expect .comma
      return value)
  expect .rbracket
  finish start .array parts

def objectMethod (g : Grammar) (kind : MethodKind) (isAsync isGenerator : Bool) : Parse Node := do
  let function ← methodRest g false kind isAsync isGenerator
  if isImplemented function then return function else reject

def objectAccessor (g : Grammar) (start : Nat) : Parse Node := do
  let kind := if ← seesWord .kwGet then MethodKind.getter else .setter
  next
  let key ← propertyKey g
  let function ← objectMethod g kind false false
  finish start (.methodProperty kind) [key, function]

def seesAsyncMethod : Parse Bool := do
  if ← seesWord .kwAsync then nextIs fun t => t.followsModifier && !t.newline else return false

/-- Reads a property of an object whose key, the given token, names its value as well. -/
def shorthandProperty (g : Grammar) (start : Nat) (name : TokenKind) (key : Node) : Parse Node := do
  match name with
  | .word text keyword =>
    let context ← read
    flawIf (keyword == some .kwAwait && context.inAsync)
    flawIf (keyword == some .kwYield && context.inGenerator)
    let variableRef := Node.mk (.reference text) key.span []
    if ← eat (.assign .plain) then
      let value ← g.assignment true
      finish start .shorthandDefault [variableRef, value]
    else finish start .shorthand [variableRef]
  | _ => reject

def objectMember (g : Grammar) (start : Nat) (isAsync : Bool) : Parse Node := do
  let isGenerator ← eat .star
  let named ← seesIdentifier
  let name ← tokenKind
  let key ← propertyKey g
  if isAsync || isGenerator || (← sees .lparen) || (← sees .less) then
    let function ← objectMethod g .method isAsync isGenerator
    finish start (.methodProperty .method) [key, function]
  else if ← eat .colon then
    let value ← g.assignment true
    finish start .property [key, value]
  else if named then shorthandProperty g start name key
  else reject

def objectProperty (g : Grammar) : Parse Node := do
  let start ← startOffset
  match ← tokenKind with
  | .punct .ellipsis => spreadOrValue g
  | _ =>
    if ← seesAsyncMethod then
      next
      objectMember g start true
    else if ← seesAccessor then objectAccessor g start
    else objectMember g start false

def objectLiteral (g : Grammar) : Parse Node := do
  let start ← startOffset
  expect .lbrace
  let parts ← inBrackets (commaList .rbrace (objectProperty g))
  expect .rbrace
  finish start .object parts

def templateLiteral (g : Grammar) (tagged : Bool) : Parse Node := templateWith g.expression .template tagged

def callArguments (g : Grammar) : Parse Node := do
  let start ← startOffset
  expect .lparen
  let parts ← inBrackets (commaList .rparen (spreadOrValue g))
  expect .rparen
  finish start .arguments parts

/-! ### Operands -/

def parenthesized (g : Grammar) : Parse Node := do
  let start ← startOffset
  expect .lparen
  let inner ← inBrackets g.expression
  expect .rparen
  finish start .paren [inner]

def decoratedClass (g : Grammar) : Parse Node := do
  let start ← startOffset
  let marks ← decorators g
  let mods ← modifiers
  classRest g start false mods marks

def isSpread (node : Node) : Bool :=
  match node.shape with
  | .spread _ => true
  | _ => false

def importCall (g : Grammar) (start : Nat) : Parse Node := do
  let arguments ← callArguments g
  flawIf (arguments.parts.isEmpty || arguments.parts.length > 2 || arguments.parts.any isSpread)
  finish start .importCall [arguments]

def importMember (g : Grammar) (start : Nat) : Parse Node := do
  match ← keyword? with
  | some .kwMeta =>
    next
    finish start .importMeta []
  | some .kwDefer | some .kwSource =>
    next
    importCall g start
  | _ => reject

def importExpression (g : Grammar) : Parse Node := do
  let start ← startOffset
  expectWord .kwImport
  if ← eat .dot then importMember g start else importCall g start

/-- An operand, and apart from it the type arguments behind it. -/
def withTypeArguments : Node → List Node
  | .mk .instantiation _ [operand, arguments] => [operand, arguments]
  | operand => [operand]

def newExpression (g : Grammar) : Parse Node := do
  let start ← startOffset
  expectWord .kwNew
  if ← eat .dot then
    if ← eatWord .kwTarget then finish start .newTarget [] else reject
  else
    let callee ← g.constructed
    flawIf (callee.shape == .importCall)
    if ← sees .questionDot then reject
    if ← sees .lparen then
      let arguments ← callArguments g
      finish start .construct (withTypeArguments callee ++ [arguments])
    else finish start .construct (withTypeArguments callee)

def regexLiteral : Parse Node := do
  modify fun cursor => cursor.rescan fun cs => scanRegex (cs.drop 1)
  match ← tokenKind with
  | .regex => leaf .regex
  | _ => reject

def primary (g : Grammar) : Parse Node := do
  let start ← startOffset
  match ← tokenKind with
  | .number legacy => leaf (.number legacy)
  | .bigint => leaf .bigint
  | .string value legacy => leaf (.string value legacy)
  | .template .. => templateLiteral g false
  | .punct .lparen => parenthesized g
  | .punct .lbracket => arrayLiteral g
  | .punct .lbrace => objectLiteral g
  | .punct .slash | .punct (.assign (.binary "/")) => regexLiteral
  | .punct .decorator => decoratedClass g
  | .word _ (some .kwThis) => leaf .this
  | .word _ (some .kwSuper) =>
    let value ← leaf .super
    if (← sees .lparen) || (← sees .dot) || (← sees .lbracket) then return value else reject
  | .word _ (some .kwNull) => leaf .null
  | .word _ (some .kwTrue) => leaf (.boolean true)
  | .word _ (some .kwFalse) => leaf (.boolean false)
  | .word _ (some .kwFunction) => functionWithName g start .expression false true
  | .word _ (some .kwClass) => classRest g start false {} []
  | .word _ (some .kwNew) => newExpression g
  | .word _ (some .kwImport) => importExpression g
  | .word _ (some .kwAsync) =>
    if ← nextIs fun t => t.kind == .word "function" (some .kwFunction) && !t.newline then
      next
      functionWithName g start .expression true true
    else reference
  | .word .. => reference
  | _ => reject

/-! ### Accesses and calls -/

/-- The binary operators: how tight they bind, and whether they are logical. -/
def binaryOp? : TokenKind → Option (Nat × Bool × String)
  | .punct .questionQuestion => some (1, true, "??")
  | .punct .barBar => some (2, true, "||")
  | .punct .ampAmp => some (3, true, "&&")
  | .punct .bar => some (4, false, "|")
  | .punct .caret => some (5, false, "^")
  | .punct .amp => some (6, false, "&")
  | .punct .eqEq => some (7, false, "==")
  | .punct .notEq => some (7, false, "!=")
  | .punct .eqEqEq => some (7, false, "===")
  | .punct .notEqEq => some (7, false, "!==")
  | .punct .less => some (8, false, "<")
  | .punct .greater => some (8, false, ">")
  | .punct .lessEq => some (8, false, "<=")
  | .punct .greaterEq => some (8, false, ">=")
  | .word _ (some .kwInstanceof) => some (8, false, "instanceof")
  | .word _ (some .kwIn) => some (8, false, "in")
  | .word _ (some .kwAs) => some (8, false, "as")
  | .word _ (some .kwSatisfies) => some (8, false, "satisfies")
  | .punct .shiftLeft => some (9, false, "<<")
  | .punct .shiftRight => some (9, false, ">>")
  | .punct .shiftRightZero => some (9, false, ">>>")
  | .punct .plus => some (10, false, "+")
  | .punct .minus => some (10, false, "-")
  | .punct .star => some (11, false, "*")
  | .punct .slash => some (11, false, "/")
  | .punct .percent => some (11, false, "%")
  | .punct .starStar => some (12, false, "**")
  | _ => none

def TokenKind.startsExpression : TokenKind → Bool
  | .number .. | .bigint | .string .. | .template .. | .regex | .privateName .. => true
  | .punct .lparen | .punct .lbracket | .punct .lbrace | .punct .slash | .punct (.assign (.binary "/"))
  | .punct .decorator | .punct .plus | .punct .minus | .punct .tilde | .punct .bang | .punct .plusPlus
  | .punct .minusMinus | .punct .less => true
  | .word _ none => true
  | .word _ (some keyword) =>
    match keyword with
    | .kwThis | .kwSuper | .kwNull | .kwTrue | .kwFalse | .kwFunction | .kwClass | .kwNew | .kwImport
    | .kwDelete | .kwTypeof | .kwVoid => true
    | keyword => !keyword.isReserved
  | _ => false

/-- Whether types in angle brackets are type arguments, judged by the token behind them. -/
def Token.followsTypeArguments (t : Token) : Bool :=
  match t.kind with
  | .punct .lparen | .template .. => true
  | .punct .less | .punct .greater | .punct .plus | .punct .minus => false
  | kind => t.newline || (binaryOp? kind).isSome || !kind.startsExpression

/-- Whether the current token touches another sign that may be part of a comparison or shift. -/
def touchesGreater : Parse Bool := do
  let cursor ← get
  return cursor.rest.head? == some '>' || cursor.rest.head? == some '='

/-- Reads type arguments behind an expression, unless the token behind them tells that they are none. -/
def instantiationArguments (g : Grammar) : Parse Node := do
  modify fun cursor => cursor.rescan scanLess
  let start ← startOffset
  expect .less
  let types ← inBrackets (commaList .greater g.type)
  let goesOn ← touchesGreater
  expect .greater
  let behind ← token
  if goesOn || types.isEmpty || !behind.followsTypeArguments then reject
  else finish start .typeArguments types

/-- Reads type arguments behind an expression. Angle brackets that do not hold any are operators. -/
def expressionTypeArguments? (g : Grammar) : Parse (Option Node) := do
  if ← seesLess then attempt (instantiationArguments g) else return none

/-- The name behind a dot: a property, or a private one. There is none behind type arguments. -/
def memberShape (target : Node) (optional : Bool) : Parse Shape := do
  flawIf (target.shape == .instantiation)
  match ← tokenKind with
  | .word name _ | .escapedWord name =>
    next
    return .member name optional
  | .privateName name =>
    next
    return .privateMember name optional
  | _ => reject

/-- An operand that is being extended, and whether a `?.` stands in it. -/
structure Chained where
  node : Node
  optional : Bool := false

def optionalStep (g : Grammar) (start : Nat) (target : Chained) : Parse (Option Chained) := do
  next
  if ← sees .lbracket then
    next
    let index ← inBrackets g.expression
    expect .rbracket
    return some ⟨← finish start (.index true) [target.node, index], true⟩
  else if (← sees .lparen) || (← seesLess) then
    let types ← if ← seesLess then pure [← typeArguments g] else pure []
    let arguments ← callArguments g
    return some ⟨← finish start (.call true) (target.node :: types ++ [arguments]), true⟩
  else
    let shape ← memberShape target.node true
    return some ⟨← finish start shape [target.node], true⟩

def taggedTemplate (g : Grammar) (start : Nat) (target : Chained) : Parse (Option Chained) := do
  flawIf target.optional
  let value ← templateLiteral g true
  return some { target with node := ← finish start .tagged (withTypeArguments target.node ++ [value]) }

/-- Reads one access or call behind an operand; `calls` tells whether calls and `?.` are read. -/
def accessStep (g : Grammar) (start : Nat) (calls : Bool) (target : Chained) : Parse (Option Chained) := do
  let context ← read
  match ← token with
  | ⟨.punct .dot, _, _⟩ =>
    next
    let shape ← memberShape target.node false
    return some { target with node := ← finish start shape [target.node] }
  | ⟨.punct .questionDot, _, _⟩ => if calls then optionalStep g start target else return none
  | ⟨.punct .lbracket, _, _⟩ =>
    if context.inDecorator then return none
    next
    let index ← inBrackets g.expression
    expect .rbracket
    return some { target with node := ← finish start (.index false) [target.node, index] }
  | ⟨.punct .bang, _, newline⟩ =>
    if newline then return none
    next
    return some { target with node := ← finish start .nonNull [target.node] }
  | ⟨.template .., _, _⟩ => taggedTemplate g start target
  | ⟨.punct .lparen, _, _⟩ =>
    if calls then
      let arguments ← callArguments g
      let parts := withTypeArguments target.node ++ [arguments]
      return some { target with node := ← finish start (.call false) parts }
    else return none
  | _ =>
    match ← expressionTypeArguments? g with
    | some types => return some { target with node := ← finish start .instantiation [target.node, types] }
    | none => return none

def constructed (g : Grammar) : Parse Node := do
  let start ← startOffset
  let head ← primary g
  let target ← extend { node := head } (accessStep g start false)
  return target.node

def leftHandSide (g : Grammar) : Parse Node := do
  let start ← startOffset
  let head ← primary g
  let target ← extend { node := head } (accessStep g start true)
  if target.optional then finish start .chain [target.node] else return target.node

/-! ### Operators -/

/-- Reads a sign that starts with `>` as far as it goes. -/
def joinGreater : Parse Unit := do
  if ← sees .greater then modify fun cursor => cursor.rescan (scanPunctOf greaterTable)

def updateTarget (node : Node) : Parse Node :=
  match simpleTarget? node with
  | some target => return target
  | none => do
    flaw
    return node

def updated (g : Grammar) : Parse Node := do
  let start ← startOffset
  match ← tokenKind with
  | .punct .plusPlus | .punct .minusMinus =>
    let increment ← sees .plusPlus
    next
    let operand ← g.unary
    let target ← updateTarget operand
    finish start (.update increment true) [target]
  | _ =>
    let context ← read
    if context.jsx && (← sees .less) then g.markup false
    else
      let operand ← g.leftHandSide
      match ← token with
      | ⟨.punct .plusPlus, _, false⟩ =>
        let target ← updateTarget operand
        next
        finish start (.update true false) [target]
      | ⟨.punct .minusMinus, _, false⟩ =>
        let target ← updateTarget operand
        next
        finish start (.update false false) [target]
      | _ => return operand

/-- Reads the operand of a prefix operator, which cannot be raised to a power. -/
def operatorOperand (g : Grammar) (start : Nat) (shape : Shape) : Parse Node := do
  next
  let operand ← g.unary
  let node ← finish start shape [operand]
  flawIf (← sees .starStar)
  return node

/-- Whether `await` or `yield` in front of a token takes it as a value even where neither is allowed. -/
def Token.followsAwait (t : Token) : Bool :=
  !t.newline && match t.kind with
    | .word _ (some .kwIn) | .word _ (some .kwInstanceof) => false
    | .word .. | .escapedWord _ | .number .. | .bigint | .string .. => true
    | _ => false

def seesAwait : Parse Bool := do
  if ← seesWord .kwAwait then
    let context ← read
    if context.inAsync then return true else nextIs Token.followsAwait
  else return false

def seesYield : Parse Bool := do
  if ← seesWord .kwYield then
    let context ← read
    if context.inGenerator then return true else nextIs Token.followsAwait
  else return false

/-- Reads a conversion such as `<T>x`. -/
def typeAssertion (g : Grammar) : Parse Node := do
  let start ← startOffset
  modify fun cursor => cursor.rescan scanLess
  expect .less
  let type ← inBrackets g.type
  expect .greater
  let operand ← g.unary
  finish start .typeAssertion [type, operand]

def unary (g : Grammar) : Parse Node := do
  let start ← startOffset
  let context ← read
  match ← tokenKind with
  | .punct .plus => operatorOperand g start (.unary "+")
  | .punct .minus => operatorOperand g start (.unary "-")
  | .punct .tilde => operatorOperand g start (.unary "~")
  | .punct .bang => operatorOperand g start (.unary "!")
  | .word _ (some .kwDelete) => operatorOperand g start (.unary "delete")
  | .word _ (some .kwTypeof) => operatorOperand g start (.unary "typeof")
  | .word _ (some .kwVoid) => operatorOperand g start (.unary "void")
  | .word _ (some .kwAwait) =>
    if ← seesAwait then
      flawIf !context.inAsync
      operatorOperand g start .await
    else updated g
  | .punct .less | .punct .shiftLeft => if context.jsx then updated g else typeAssertion g
  | _ => updated g

def isLogical (symbols : List String) (node : Node) : Bool :=
  match node.shape with
  | .logical symbol => symbols.contains symbol
  | _ => false

/-- Whether two operands cannot be joined by a logical operator: `??` does not mix with the others. -/
def mixesLogical (symbol : String) (left right : Node) : Bool :=
  if symbol == "??" then isLogical ["||", "&&"] left || isLogical ["||", "&&"] right
  else isLogical ["??"] left || isLogical ["??"] right

/-- Reads one binary operator that binds tighter than `level`, and its right operand. -/
def binaryStep (g : Grammar) (start level : Nat) (left : Node) : Parse (Option Node) := do
  joinGreater
  match binaryOp? (← tokenKind) with
  | none => return none
  | some (opLevel, logical, symbol) =>
    let context ← read
    if if opLevel == 12 then opLevel < level else opLevel ≤ level then return none
    else if symbol == "in" && !context.allowIn then return none
    else if symbol == "as" || symbol == "satisfies" then
      if ← onNewLine then return none
      next
      let type ← g.type
      return some (← finish start (if symbol == "as" then .asType else .satisfies) [left, type])
    else
      next
      let right ← g.binary opLevel
      if logical then
        flawIf (mixesLogical symbol left right)
        return some (← finish start (.logical symbol) [left, right])
      else return some (← finish start (.binary symbol) [left, right])

/-- Reads the operand in front of binary operators that bind tighter than `level`. A private name stands only
on the left of `in`. -/
def firstOperand (g : Grammar) (level : Nat) : Parse Node := do
  match ← tokenKind with
  | .privateName name =>
    let operand ← leaf (.privateName name)
    if level < 8 && (← seesWord .kwIn) then return operand else reject
  | _ => g.unary

/-- Reads operands joined by binary operators that bind tighter than `level`. -/
def binary (g : Grammar) (level : Nat) : Parse Node := do
  let start ← startOffset
  let first ← firstOperand g level
  extend first (binaryStep g start level)

/-! ### Arrow functions -/

inductive Verdict
  | yes | no | maybe
deriving DecidableEq, Repr

def judgeParenthesis : Parse Verdict := do
  match ← tokenKind with
  | .punct .rparen =>
    next
    match ← tokenKind with
    | .punct .arrow | .punct .colon | .punct .lbrace => return .yes
    | _ => return .no
  | .punct .lbracket | .punct .lbrace => return .maybe
  | .punct .ellipsis => return .yes
  | .punct .decorator => return .yes
  | kind =>
    let isModifier ← match ← keyword? with
      | some .kwAsync | none => pure false
      | some keyword => pure (modifierOf? keyword).isSome
    if isModifier && (← nextIs fun t => t.kind.isIdentifier) then
      next
      if ← seesWord .kwAs then return .no else return .yes
    else if !kind.isIdentifier && !(← seesWord .kwThis) then return .no
    else
      next
      match ← tokenKind with
      | .punct .colon => return .yes
      | .punct .question =>
        next
        match ← tokenKind with
        | .punct .colon | .punct .comma | .punct (.assign .plain) | .punct .rparen => return .yes
        | _ => return .no
      | .punct .comma | .punct (.assign .plain) | .punct .rparen => return .maybe
      | _ => return .no

/-- Judges what stands behind an opening angle bracket. Where markup is part of the language, a type
parameter shows by a comma, a value or a bound behind it. -/
def judgeAngle : Parse Verdict := do
  if !(← seesIdentifier) && !(← seesWord .kwConst) then return .no
  else
    let context ← read
    if context.jsx then
      if ← seesWord .kwConst then next
      next
      match ← tokenKind with
      | .punct .comma | .punct (.assign .plain) => return .yes
      | .word _ (some .kwExtends) =>
        next
        match ← tokenKind with
        | .punct (.assign .plain) | .punct .greater | .punct .slash => return .no
        | _ => return .yes
      | _ => return .no
    else return .maybe

def judgeArrow : Parse Verdict := fun context cursor =>
  let judge : Parse Verdict := do
    if ← seesWord .kwAsync then
      next
      if ← onNewLine then return .no
    match ← tokenKind with
    | .punct .lparen =>
      next
      judgeParenthesis
    | .punct .less =>
      next
      judgeAngle
    | _ => return .no
  match judge context cursor with
  | .ok (verdict, _) => .ok (verdict, cursor)
  | .error .unexpected => .ok (.no, cursor)
  | .error .exhausted => .error .exhausted

/-- Reads the body of an arrow function: whether it is an expression, and its parts. -/
def arrowBody (g : Grammar) (isAsync allowReturn : Bool) : Parse (Bool × List Node) := do
  if ← sees .lbrace then
    let body ← functionBody g isAsync false
    return (false, body)
  else
    let value ← withReader
      (fun context =>
        { context with
          inAsync := isAsync, inGenerator := false, inFunction := true, inDecorator := false
          noConditionalType := false })
      (g.assignment allowReturn)
    return (true, [value])

def arrowParams (g : Grammar) (isAsync : Bool) : Parse (List Node) := do
  let typeParams ← typeParameters? g
  let list ← withReader (fun context => { context with inAsync := context.inAsync || isAsync })
    (params g false)
  flawIf (bindsThis list)
  return typeParams ++ [list]

/-- Reads the arrow of an arrow function, which stands on the line of its parameters. -/
def arrowSign : Parse Unit := do
  flawIf (← onNewLine)
  expect .arrow

def arrowFunction (g : Grammar) (allowReturn : Bool) : Parse Node := do
  let start ← startOffset
  let isAsync ← eatWord .kwAsync
  let list ← arrowParams g isAsync
  let result ← returnType? g
  arrowSign
  let (isExpression, body) ← arrowBody g isAsync allowReturn
  let function ← finish start (.arrow isAsync isExpression) (list ++ result ++ body)
  if !allowReturn && !result.isEmpty && !(← sees .colon) then reject else return function

def arrowFunction? (g : Grammar) (allowReturn : Bool) : Parse (Option Node) := do
  match ← judgeArrow with
  | .yes => return some (← arrowFunction g true)
  | .maybe => attempt (arrowFunction g allowReturn)
  | .no => return none

/-- Reads an arrow function with a single name for its parameters, which has been read. -/
def simpleArrow (g : Grammar) (start : Nat) (name : String) (span : Span) (isAsync allowReturn : Bool) :
    Parse Node := do
  arrowSign
  let list := Node.mk .params span [.mk (.param false {}) span [.mk (.binding name) span []]]
  let (isExpression, body) ← arrowBody g isAsync allowReturn
  finish start (.arrow isAsync isExpression) (list :: body)

def seesAsyncArrow : Parse Bool := do
  if ← seesWord .kwAsync then
    ahead do
      next
      if (← onNewLine) || !(← seesIdentifier) then return false
      next
      sees .arrow
  else return false

/-! ### Assignments -/

def yieldExpression (g : Grammar) : Parse Node := do
  let start ← startOffset
  expectWord .kwYield
  if ← onNewLine then finish start .yield []
  else if ← eat .star then
    let value ← g.assignment true
    finish start .yield [value]
  else if (← tokenKind).startsExpression then
    let value ← g.assignment true
    finish start .yield [value]
  else finish start .yield []

def conditionalRest (g : Grammar) (start : Nat) (allowReturn : Bool) (test : Node) : Parse Node := do
  if ← eat .question then
    let yes ← withReader (fun context => { context with allowIn := true }) (g.assignment false)
    expect .colon
    let no ← g.assignment allowReturn
    finish start .conditional [test, yes, no]
  else return test

/-- Reads what follows the operands at the start of an expression: the rest of an arrow function, an
assignment or a conditional expression. -/
def assignmentRest (g : Grammar) (start : Nat) (allowReturn : Bool) (left : Node) : Parse Node := do
  match left, ← tokenKind with
  | .mk (.reference name) span _, .punct .arrow => simpleArrow g start name span false allowReturn
  | left, .punct (.assign op) =>
    match assignTarget? op left with
    | some target =>
      next
      let value ← g.assignment allowReturn
      finish start (.assign op) [target, value]
    | none => reject
  | left, _ => conditionalRest g start allowReturn left

def asyncArrow (g : Grammar) (allowReturn : Bool) : Parse Node := do
  let start ← startOffset
  expectWord .kwAsync
  let cursor ← get
  let name ← identifier
  simpleArrow g start name cursor.token.span true allowReturn

def assignment (g : Grammar) (allowReturn : Bool) : Parse Node := do
  let start ← startOffset
  let context ← read
  if ← seesYield then
    flawIf !context.inGenerator
    yieldExpression g
  else
    match ← arrowFunction? g allowReturn with
    | some function => return function
    | none =>
      if ← seesAsyncArrow then asyncArrow g allowReturn
      else
        let left ← g.binary 0
        assignmentRest g start allowReturn left

def expression (g : Grammar) : Parse Node := do
  let start ← startOffset
  let first ← g.assignment true
  if ← sees .comma then
    let parts ← extend [first] fun parts => do
      if ← eat .comma then
        let value ← g.assignment true
        return some (value :: parts)
      else return none
    finish start .sequence parts.reverse
  else return first

end Polyview.Script
