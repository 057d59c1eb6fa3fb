import Polyview.Script.Reader

/-! # Patterns and parameters

Property keys, patterns that declare variables, modifiers, decorators and parameter lists. -/

namespace Polyview.Script

/-! ### Keys -/

def propertyKey (g : Grammar) : Parse Node := do
  match ← tokenKind with
  | .word .. | .escapedWord _ => plainName
  | .string value legacy => leaf (.string value legacy)
  | .number legacy => leaf (.number legacy)
  | .bigint => leaf .bigint
  | .punct .lbracket =>
    let start ← startOffset
    next
    let value ← inBrackets (g.assignment true)
    expect .rbracket
    finish start .computedKey [value]
  | _ => reject

/-! ### Patterns -/

def initializer? (g : Grammar) : Parse (List Node) := do
  if ← eat (.assign .plain) then
    let value ← g.assignment true
    return [.mk .initializer value.span [value]]
  else return []

def withDefault (g : Grammar) (start : Nat) (target : Node) : Parse Node := do
  if ← eat (.assign .plain) then
    let value ← inBrackets (g.assignment true)
    finish start .defaultPattern [target, value]
  else return target

def patternElement (g : Grammar) : Parse Node := do
  let start ← startOffset
  let target ← g.pattern
  withDefault g start target

/-- Reads the rest of a pattern, behind which nothing may stand; `target` reads what collects it. -/
def restElement (target : Parse Node) (close : Punct) : Parse Node := do
  let start ← startOffset
  expect .ellipsis
  let target ← target
  if ← sees close then finish start .restPattern [target] else reject

def arrayPattern (g : Grammar) : Parse Node := do
  let start ← startOffset
  expect .lbracket
  let parts ← manyUntil (sees .rbracket) do
    if ← sees .comma then leaf .hole
    else if ← sees .ellipsis then restElement g.pattern .rbracket
    else
      let element ← patternElement g
      if !(← sees .rbracket) then expect .comma
      return element
  expect .rbracket
  finish start .arrayPattern parts

/-- Reads a property of an object pattern. Only a plain name collects the remaining properties. -/
def patternProperty (g : Grammar) : Parse Node := do
  let start ← startOffset
  if ← sees .ellipsis then restElement binding .rbrace
  else if (← seesIdentifier) && !(← nextIs fun t => t.kind == .punct .colon) then
    let name ← binding
    let target ← withDefault g start name
    finish start .patternShorthand [target]
  else
    let key ← propertyKey g
    expect .colon
    let target ← patternElement g
    finish start .patternProperty [key, target]

def objectPattern (g : Grammar) : Parse Node := do
  let start ← startOffset
  expect .lbrace
  let parts ← commaList .rbrace (patternProperty g)
  expect .rbrace
  finish start .objectPattern parts

def pattern (g : Grammar) : Parse Node := do
  match ← tokenKind with
  | .punct .lbracket => arrayPattern g
  | .punct .lbrace => objectPattern g
  | _ => binding

/-! ### Decorators and modifiers -/

def decorator (g : Grammar) : Parse Node := do
  let start ← startOffset
  expect .decorator
  let value ← withReader (fun context => { context with inDecorator := true }) g.leftHandSide
  finish start .decorator [value]

def decorators (g : Grammar) : Parse (List Node) := manyUntil (do return !(← sees .decorator)) (decorator g)

def modifierOf? : Keyword → Option (Modifiers → Modifiers)
  | .kwPublic => some fun m => { m with access := some .publicAccess }
  | .kwProtected => some fun m => { m with access := some .protectedAccess }
  | .kwPrivate => some fun m => { m with access := some .privateAccess }
  | .kwStatic => some fun m => { m with isStatic := true }
  | .kwReadonly => some fun m => { m with isReadonly := true }
  | .kwAbstract => some fun m => { m with isAbstract := true }
  | .kwDeclare => some fun m => { m with isDeclared := true }
  | .kwOverride => some fun m => { m with isOverride := true }
  | .kwAccessor => some fun m => { m with isAccessor := true }
  | .kwAsync => some fun m => { m with isAsync := true }
  | _ => none

/-- Whether a modifier must not follow those that were read: it repeats one, or belongs in front of one. -/
def Modifiers.refuses (seen : Modifiers) : Keyword → Bool
  | .kwPublic | .kwProtected | .kwPrivate =>
    seen.access.isSome || seen.isStatic || seen.isOverride || seen.isReadonly || seen.isAccessor ||
      seen.isAsync
  | .kwStatic => seen.isStatic || seen.isOverride || seen.isReadonly || seen.isAccessor || seen.isAsync
  | .kwOverride => seen.isOverride || seen.isReadonly || seen.isAccessor || seen.isAsync
  | .kwAbstract => seen.isAbstract || seen.isOverride || seen.isAccessor
  | .kwReadonly => seen.isReadonly
  | .kwDeclare => seen.isDeclared
  | .kwAccessor => seen.isAccessor
  | .kwAsync => seen.isAsync
  | _ => false

/-- Whether a token can stand behind a modifier. -/
def Token.followsModifier (t : Token) : Bool :=
  match t.kind with
  | .punct .lbracket | .punct .lbrace | .punct .star | .punct .ellipsis => true
  | kind => kind.isPropertyName

/-- The modifier at the current token. A word is a modifier only if something to modify follows it, on the
same line unless it is `static`; in front of a brace `static` starts a block. -/
def modifier? (seen : Modifiers) : Parse (Option (Modifiers → Modifiers)) := do
  match ← keyword? with
  | some .kwStatic =>
    if seen.isStatic then return none
    else if ← nextIs fun t => t.followsModifier && t.kind != .punct .lbrace then
      flawIf (seen.refuses .kwStatic)
      return modifierOf? .kwStatic
    else return none
  | some keyword =>
    match modifierOf? keyword with
    | some change =>
      if ← nextIs fun t => t.followsModifier && !t.newline then
        flawIf (seen.refuses keyword)
        return some change
      else return none
    | none => return none
  | none => return none

def modifiers : Parse Modifiers :=
  extend {} fun seen => do
    match ← modifier? seen with
    | some change =>
      next
      return some (change seen)
    | none => return none

/-! ### Parameters -/

def typeClause (g : Grammar) : Parse Node := do
  let start ← startOffset
  expect .colon
  let type ← g.type
  finish start .typeClause [type]

def typeClause? (g : Grammar) : Parse (List Node) := do
  if ← sees .colon then return [← typeClause g] else return []

def endsParams : Parse Bool := do
  let context ← read
  if context.inAmbient && (← sees .comma) then nextIs fun t => t.kind == .punct .rparen
  else sees .rparen

/-- Reads a parameter that collects the remaining arguments, behind its decorators. -/
def restParam (g : Grammar) (start : Nat) (marks : List Node) : Parse (List Node) := do
  expect .ellipsis
  let target ← g.pattern
  let rest ← finish start .restParam (marks ++ [target])
  flawIf (← eat .question)
  let type ← typeClause? g
  let value ← initializer? g
  flawIf !value.isEmpty
  flawIf !(← endsParams)
  return rest :: type

/-- Reads a parameter. Only a parameter of a class member has decorators or says who can see it. -/
def param (g : Grammar) (inClass : Bool) : Parse (List Node) := do
  let start ← startOffset
  let marks ← decorators g
  let mods ← modifiers
  flawIf (mods.isStatic || mods.isAbstract || mods.isDeclared || mods.isAccessor || mods.isAsync)
  flawIf (!inClass && (!marks.isEmpty || mods.access.isSome || mods.isOverride))
  if ← sees .ellipsis then restParam g start marks
  else
    let target ← g.pattern
    let optional ← eat .question
    let type ← typeClause? g
    let value ← initializer? g
    flawIf (optional && !value.isEmpty)
    return [← finish start (.param optional mods) (marks ++ target :: type ++ value)]

/-- Reads the type of `this`, which only the first parameter gives. -/
def thisParam? (g : Grammar) : Parse (List Node) := do
  let start ← startOffset
  if ← eatWord .kwThis then
    let type ← typeClause? g
    let first ← finish start .thisParam type
    if !(← sees .rparen) then expect .comma
    return [first]
  else return []

def params (g : Grammar) (inClass : Bool) : Parse Node := do
  let start ← startOffset
  expect .lparen
  let parts ← inBrackets do
    let first ← thisParam? g
    let others ← commaList .rparen (param g inClass)
    return first ++ others.flatten
  expect .rparen
  finish start .params parts

def bindsThis (list : Node) : Bool := list.parts.any fun part => part.shape == .thisParam

end Polyview.Script
