import Polyview.Script.Pattern

/-! # Types

Type annotations, type parameters and type arguments. A name at the head of a type is a reference, a type
parameter is a binding; other names in types are neither. -/

namespace Polyview.Script

/-! ### Arguments and parameters -/

/-- Reads the first `<` of a token again as a token of its own. -/
def scanLess (cs : List Char) : Scanned :=
  match cs with
  | '<' :: rest => ⟨.punct .less, 1, rest⟩
  | _ => .invalid cs

def seesLess : Parse Bool := do
  return (← sees .less) || (← sees .shiftLeft)

def typeArguments (g : Grammar) : Parse Node := do
  modify fun cursor => cursor.rescan scanLess
  let start ← startOffset
  expect .less
  let types ← inBrackets (commaList .greater g.type)
  expect .greater
  flawIf types.isEmpty
  finish start .typeArguments types

def typeArguments? (g : Grammar) : Parse (List Node) := do
  if (← seesLess) && !(← onNewLine) then return [← typeArguments g] else return []

structure Variance where
  isConst : Bool := false
  isIn : Bool := false
  isOut : Bool := false

/-- What a keyword says as a modifier of a type parameter. -/
def varianceOf? : Keyword → Option (Variance → Variance)
  | .kwConst => some fun v => { v with isConst := true }
  | .kwIn => some fun v => { v with isIn := true }
  | .kwOut => some fun v => { v with isOut := true }
  | _ => none

/-- Whether a modifier must not follow those that were read: it repeats one, or belongs in front of one. -/
def Variance.refuses (seen : Variance) : Keyword → Bool
  | .kwConst => seen.isConst
  | .kwIn => seen.isIn || seen.isOut
  | .kwOut => seen.isOut
  | _ => false

/-- Reads the modifiers of a type parameter. A word is one only if something to modify follows it on the
same line. -/
def variance : Parse Variance :=
  extend {} fun seen => do
    match ← keyword? with
    | some keyword =>
      match varianceOf? keyword with
      | some change =>
        if ← nextIs fun t => t.followsModifier && !t.newline then
          flawIf (seen.refuses keyword)
          next
          return some (change seen)
        else return none
      | none => return none
    | none => return none

def typeParameter (g : Grammar) : Parse Node := do
  let start ← startOffset
  let mods ← variance
  let name ← binding
  let bound ← if ← eatWord .kwExtends then pure [← g.type] else pure []
  let value ← if ← eat (.assign .plain) then pure [← g.type] else pure []
  finish start (.typeParameter (mods.isIn || mods.isOut)) (name :: bound ++ value)

def typeParameters (g : Grammar) : Parse Node := do
  let start ← startOffset
  expect .less
  let parts ← inBrackets (commaList .greater (typeParameter g))
  expect .greater
  flawIf parts.isEmpty
  finish start .typeParameters parts

def typeParameters? (g : Grammar) : Parse (List Node) := do
  if ← sees .less then return [← typeParameters g] else return []

/-! ### Names -/

/-- Extends a name by the names behind dots. -/
def qualifiedName (start : Nat) (head : Node) : Parse Node :=
  extend head fun left => do
    if ← eat .dot then
      let name ← anyName
      return some (← finish start (.qualified name) [left])
    else return none

def typeName : Parse Node := do
  let start ← startOffset
  let name ← anyName
  finish start (.reference name) []

def typeReference (g : Grammar) : Parse Node := do
  let start ← startOffset
  let head ← typeName
  let name ← qualifiedName start head
  let arguments ← typeArguments? g
  finish start (.type .reference) (name :: arguments)

def importOptions (g : Grammar) : Parse Node := do
  let value ← inBrackets (g.assignment true)
  if value.shape != .object then reject
  let _ ← eat .comma
  return value

def importedType (g : Grammar) (start : Nat) : Parse Node := do
  expectWord .kwImport
  expect .lparen
  let source ← match ← tokenKind with
    | .string .. => leaf (.type .literal)
    | _ => reject
  let options ← if ← eat .comma then pure [← importOptions g] else pure []
  expect .rparen
  let names ← manyUntil (do return !(← sees .dot)) do
    next
    plainName
  let arguments ← typeArguments? g
  finish start (.type .imported) (source :: options ++ names ++ arguments)

def typeQuery (g : Grammar) : Parse Node := do
  let start ← startOffset
  expectWord .kwTypeof
  if ← seesWord .kwImport then
    let value ← importedType g (← startOffset)
    finish start (.type .query) [value]
  else
    let nameStart ← startOffset
    let head ← if ← seesWord .kwThis then leaf (.type .this) else typeName
    let name ← qualifiedName nameStart head
    let arguments ← typeArguments? g
    finish start (.type .query) (name :: arguments)

/-! ### Predicates -/

/-- Reads a type, or what a function tells about a parameter as in `x is T`. -/
def typeOrPredicate (g : Grammar) : Parse Node := do
  let start ← startOffset
  let isPredicate ← if ← seesIdentifier then
      nextIs fun t => t.kind == .word "is" (some .kwIs) && !t.newline
    else pure false
  if isPredicate then
    let subject ← plainName
    next
    let type ← g.type
    finish start (.type .predicate) [subject, type]
  else g.type

def assertion (g : Grammar) : Parse Node := do
  let start ← startOffset
  expectWord .kwAsserts
  let subject ← if ← seesWord .kwThis then leaf (.type .this) else plainName
  let type ← if ← eatWord .kwIs then pure [← g.type] else pure []
  finish start (.type .predicate) (subject :: type)

def returnType? (g : Grammar) : Parse (List Node) := do
  let start ← startOffset
  if ← eat .colon then
    let type ← typeOrPredicate g
    return [← finish start .typeClause [type]]
  else return []

/-! ### Functions -/

/-- Skips the start of a parameter: its modifiers and its name or pattern. -/
def skipParamStart (g : Grammar) : Parse Bool := do
  let _ ← modifiers
  match ← tokenKind with
  | .punct .lbracket | .punct .lbrace =>
    let _ ← g.pattern
    return true
  | kind =>
    if kind.isIdentifier || (← seesWord .kwThis) then
      next
      return true
    else return false

def seesFunctionType (g : Grammar) : Parse Bool :=
  ahead do
    next
    match ← tokenKind with
    | .punct .rparen | .punct .ellipsis => return true
    | _ =>
      if ← skipParamStart g then
        match ← tokenKind with
        | .punct .colon | .punct .comma | .punct .question | .punct (.assign .plain) => return true
        | .punct .rparen =>
          next
          sees .arrow
        | _ => return false
      else return false

def functionTypeRest (g : Grammar) (start : Nat) (form : TypeForm) : Parse Node := do
  let typeParams ← typeParameters? g
  let list ← params g false
  flawIf (form == .constructor && bindsThis list)
  let arrowStart ← startOffset
  expect .arrow
  let result ← typeOrPredicate g
  let result ← finish arrowStart .typeClause [result]
  finish start (.type form) (typeParams ++ [list, result])

def functionType? (g : Grammar) : Parse (Option Node) := do
  let start ← startOffset
  match ← tokenKind with
  | .punct .less => return some (← functionTypeRest g start .function)
  | .punct .lparen => if ← seesFunctionType g then return some (← functionTypeRest g start .function) else return none
  | .word _ (some .kwNew) =>
    next
    return some (← functionTypeRest g start .constructor)
  | .word _ (some .kwAbstract) =>
    if ← nextIs fun t => t.kind == .word "new" (some .kwNew) then
      next
      next
      return some (← functionTypeRest g start .constructor)
    else return none
  | _ => return none

/-! ### Members of object types -/

def seesIndexSignature : Parse Bool := do
  if ← sees .lbracket then
    ahead do
      next
      match ← tokenKind with
      | .punct .ellipsis | .punct .rbracket => return true
      | kind =>
        if !kind.isIdentifier then return false
        next
        match ← tokenKind with
        | .punct .colon | .punct .comma => return true
        | .punct .question =>
          next
          match ← tokenKind with
          | .punct .colon | .punct .comma | .punct .rbracket => return true
          | _ => return false
        | _ => return false
  else return false

/-- Ends a member of an object type; no sign has to stand between two members. -/
def endMember : Parse Unit := do
  if ← eat .comma then return ()
  let _ ← eat .semicolon

def indexSignature (g : Grammar) (start : Nat) : Parse Node := do
  expect .lbracket
  let keyStart ← startOffset
  let name ← plainName
  let keyType ← inBrackets (typeClause g)
  let key ← finish keyStart (.type .named) [name, keyType]
  expect .rbracket
  let type ← typeClause g
  endMember
  finish start .indexSignature [key, type]

def signatureRest (g : Grammar) : Parse (List Node) := do
  let typeParams ← typeParameters? g
  let list ← params g false
  let result ← returnType? g
  return typeParams ++ list :: result

/-- Whether the current word, `get` or `set`, starts an accessor. -/
def seesAccessor : Parse Bool := do
  match ← keyword? with
  | some .kwGet | some .kwSet => nextIs Token.followsModifier
  | _ => return false

def accessorMember (g : Grammar) (start : Nat) : Parse Node := do
  let isSetter ← seesWord .kwSet
  next
  let key ← propertyKey g
  let list ← params g false
  let result ← returnType? g
  flawIf (isSetter && !result.isEmpty)
  endMember
  finish start (.type .member) (key :: list :: result)

/-- Reads a property or method of an object type; only a property can be marked as `readonly`. -/
def namedMember (g : Grammar) (start : Nat) (isReadonly : Bool) : Parse Node := do
  let key ← propertyKey g
  let _ ← eat .question
  if (← sees .lparen) || (← sees .less) then
    flawIf isReadonly
    let parts ← signatureRest g
    endMember
    finish start (.type .member) (key :: parts)
  else
    let type ← typeClause? g
    endMember
    finish start (.type .member) (key :: type)

def typeMember (g : Grammar) : Parse Node := do
  let start ← startOffset
  let isConstruct ← if ← seesWord .kwNew then
      nextIs fun t => t.kind == .punct .lparen || t.kind == .punct .less
    else pure false
  if isConstruct then next
  if isConstruct || (← sees .lparen) || (← sees .less) then
    let parts ← signatureRest g
    flawIf (isConstruct && parts.any bindsThis)
    endMember
    finish start (.type .member) parts
  else
    let mods ← modifiers
    flawIf ({ mods with isReadonly := false } != {})
    if ← seesIndexSignature then indexSignature g start
    else if ← seesAccessor then accessorMember g start
    else namedMember g start mods.isReadonly

def typeMembers (g : Grammar) : Parse (List Node) := do
  expect .lbrace
  let members ← inBrackets (manyUntil (sees .rbrace) (typeMember g))
  expect .rbrace
  return members

/-! ### Mapped types -/

def seesMappedType : Parse Bool :=
  ahead do
    next
    if (← sees .plus) || (← sees .minus) then
      next
      seesWord .kwReadonly
    else
      if ← seesWord .kwReadonly then next
      if ← eat .lbracket then
        if ← seesAnyWord then
          next
          seesWord .kwIn
        else return false
      else return false

/-- Skips a modifier of a mapped type, which may have a sign in front of it. -/
def skipSigned (modifier : Parse Bool) : Parse Unit := do
  let isSigned ← if ← eat .plus then pure true else eat .minus
  if !(← modifier) && isSigned then reject

def mappedKey (g : Grammar) : Parse Node := do
  let start ← startOffset
  let name ← anyName
  let name ← finish start (.binding name) []
  expectWord .kwIn
  let bound ← inBrackets g.type
  finish start (.typeParameter false) [name, bound]

def mappedType (g : Grammar) : Parse Node := do
  let start ← startOffset
  expect .lbrace
  skipSigned (eatWord .kwReadonly)
  expect .lbracket
  let key ← mappedKey g
  let rename ← if ← eatWord .kwAs then pure [← inBrackets g.type] else pure []
  expect .rbracket
  skipSigned (eat .question)
  let type ← inBrackets (typeClause? g)
  let _ ← eat .semicolon
  expect .rbrace
  finish start (.type .mapped) (key :: rename ++ type)

/-! ### Tuples -/

def seesTupleName : Parse Bool := do
  if ← seesAnyWord then
    ahead do
      next
      if ← eat .question then sees .colon else sees .colon
  else return false

inductive TupleRole
  | required | optional
  | rest
  /-- The elements of a type of which it is not known whether it is a list. -/
  | spread
deriving DecidableEq, Repr

def isListType : Node → Bool
  | .mk (.type .array) _ _ => true
  | .mk (.type .paren) _ [inner] => isListType inner
  | .mk (.type .reference) _ (.mk (.reference name) _ _ :: _) => name == "Array" || name == "ReadonlyArray"
  | _ => false

def hasQuestionMark : Node → Bool
  | .mk (.type .optional) span [inner] => span.start == inner.span.start
  | _ => false

/-- Whether elements of a tuple can stand in this order: none that is required behind an optional one, and
behind a list no other list and none that is optional. -/
def fitsTuple (seenOptional seenRest : Bool) : List TupleRole → Bool
  | [] => true
  | .required :: roles => !seenOptional && fitsTuple seenOptional seenRest roles
  | .optional :: roles => !seenRest && fitsTuple true seenRest roles
  | .rest :: roles => !seenRest && fitsTuple seenOptional true roles
  | .spread :: roles => fitsTuple seenOptional seenRest roles

def tupleElement (g : Grammar) : Parse (Node × TupleRole) := do
  let start ← startOffset
  let isRest ← eat .ellipsis
  let roleOf (isOptional : Bool) (type : Node) : TupleRole :=
    if isOptional then .optional
    else if !isRest then .required
    else if isListType type then .rest
    else .spread
  if ← seesTupleName then
    let name ← plainName
    let isOptional ← eat .question
    flawIf (isRest && isOptional)
    expect .colon
    let _ ← eat .ellipsis
    let type ← g.type
    return (← finish start (.type .named) [name, type], roleOf isOptional type)
  else
    let type ← g.type
    let role := roleOf (!isRest && hasQuestionMark type) type
    if isRest then return (← finish start (.type .rest) [type], role) else return (type, role)

def tupleType (g : Grammar) : Parse Node := do
  let start ← startOffset
  expect .lbracket
  let elements ← inBrackets (commaList .rbracket (tupleElement g))
  expect .rbracket
  flawIf !(fitsTuple false false (elements.map Prod.snd))
  finish start (.type .tuple) (elements.map Prod.fst)

/-! ### Single types -/

/-- Whether the part of a template literal at the current token is its last. Only the parts of tagged ones may
hold invalid escapes. -/
def endsTemplate (tagged : Bool) : Parse Bool := do
  match ← tokenKind with
  | .template closed valid =>
    flawIf (!valid && !tagged)
    return closed
  | _ => reject

/-- Reads the next part of a template literal unless the last was read; `part` reads a substitution. -/
def templateStep (part : Parse Node) (tagged : Bool) (state : Bool × List Node) :
    Parse (Option (Bool × List Node)) := do
  if state.1 then return none
  else if ← sees .rbrace then
    modify fun cursor => cursor.rescan fun cs => scanTemplate (cs.drop 1)
    if ← endsTemplate tagged then
      next
      return some (true, state.2)
    else
      next
      let value ← inBrackets part
      return some (false, value :: state.2)
  else reject

/-- Reads a template literal; `part` reads a substitution. -/
def templateWith (part : Parse Node) (shape : Shape) (tagged : Bool) : Parse Node := do
  let start ← startOffset
  if ← endsTemplate tagged then
    next
    finish start shape []
  else
    next
    let first ← inBrackets part
    let parts ← extend (false, [first]) (templateStep part tagged)
    finish start shape parts.2.reverse

/-- Whether the current word names a built-in type. -/
def Keyword.isTypeName : Keyword → Bool
  | .kwAny | .kwUnknown | .kwNever | .kwObject | .kwString | .kwNumber | .kwBoolean | .kwSymbol
  | .kwBigint | .kwUndefined => true
  | _ => false

def endsUnknownType : Parse Bool := do
  match ← tokenKind with
  | .punct .comma | .punct .rbrace | .punct .rparen | .punct .greater | .punct .bar => return true
  | .punct (.assign .plain) => return true
  | _ => return false

def simpleType (g : Grammar) : Parse Node := do
  let start ← startOffset
  match ← tokenKind with
  | .string .. | .number .. | .bigint => leaf (.type .literal)
  | .template .. => templateWith g.type (.type .template) false
  | .punct .minus =>
    next
    match ← tokenKind with
    | .number .. | .bigint =>
      next
      finish start (.type .literal) []
    | _ => reject
  | .punct .lbrace =>
    if ← seesMappedType then mappedType g
    else
      let members ← typeMembers g
      finish start (.type .object) members
  | .punct .lbracket => tupleType g
  | .punct .lparen =>
    next
    let inner ← inBrackets g.type
    expect .rparen
    finish start (.type .paren) [inner]
  | .punct .question =>
    next
    if ← endsUnknownType then finish start (.type .optional) []
    else
      let inner ← g.type
      finish start (.type .optional) [inner]
  | .punct .bang =>
    next
    let inner ← g.typeOperand
    finish start (.type .nonNull) [inner]
  | .word _ (some .kwVoid) | .word _ (some .kwNull) => leaf (.type .keyword)
  | .word _ (some .kwTrue) | .word _ (some .kwFalse) => leaf (.type .literal)
  | .word _ (some .kwThis) =>
    let subject ← leaf (.type .this)
    if (← seesWord .kwIs) && !(← onNewLine) then
      next
      let type ← g.type
      finish start (.type .predicate) [subject, type]
    else return subject
  | .word _ (some .kwTypeof) => typeQuery g
  | .word _ (some .kwImport) => importedType g start
  | .word _ (some .kwAsserts) =>
    if ← nextIs fun t =>
        (t.kind.isIdentifier || t.kind == .word "this" (some .kwThis)) && !t.newline then
      assertion g
    else typeReference g
  | .word _ (some keyword) =>
    if keyword.isTypeName && !(← nextIs fun t => t.kind == .punct .dot) then leaf (.type .keyword)
    else typeReference g
  | _ => typeReference g

def seesType : Parse Bool := do
  match ← tokenKind with
  | .string .. | .number .. | .bigint | .template .. => return true
  | .punct .minus | .punct .lbrace | .punct .lbracket | .punct .lparen | .punct .less | .punct .bar
  | .punct .amp | .punct .ellipsis | .punct .bang | .punct .question | .punct .star => return true
  | .word _ (some keyword) =>
    return !keyword.isReserved || match keyword with
      | .kwVoid | .kwNull | .kwThis | .kwTypeof | .kwTrue | .kwFalse | .kwNew | .kwImport
      | .kwFunction => true
      | _ => false
  | .word _ none => return true
  | _ => return false

/-- Reads what follows a type on its line: array brackets, an index, or the mark of an optional type. -/
def postfixStep (g : Grammar) (start : Nat) (type : Node) : Parse (Option Node) := do
  if ← onNewLine then return none
  else if ← sees .bang then
    next
    return some (← finish start (.type .nonNull) [type])
  else if ← sees .question then
    let isConditional ← ahead do
      next
      seesType
    if isConditional then return none
    else
      next
      return some (← finish start (.type .optional) [type])
  else if ← sees .lbracket then
    next
    if ← eat .rbracket then return some (← finish start (.type .array) [type])
    else
      let index ← inBrackets g.type
      expect .rbracket
      return some (← finish start (.type .indexed) [type, index])
  else return none

def postfixType (g : Grammar) : Parse Node := do
  let start ← startOffset
  let head ← simpleType g
  extend head (postfixStep g start)

/-- Reads the bound of an inferred type, unless it is the start of a conditional type. -/
def inferBound (g : Grammar) : Parse (List Node) := do
  if ← seesWord .kwExtends then
    let bound ← attempt do
      next
      let type ← withReader (fun context => { context with noConditionalType := true }) g.type
      let context ← read
      if context.noConditionalType || !(← sees .question) then return type else reject
    return bound.toList
  else return []

def typeOperand (g : Grammar) : Parse Node := do
  let start ← startOffset
  match ← keyword? with
  | some .kwKeyof | some .kwUnique =>
    next
    let type ← g.typeOperand
    finish start (.type .operator) [type]
  | some .kwReadonly =>
    next
    let type ← g.typeOperand
    flawIf !(type.shape == .type .array || type.shape == .type .tuple)
    finish start (.type .operator) [type]
  | some .kwInfer =>
    next
    let nameStart ← startOffset
    let name ← binding
    let bound ← inferBound g
    let parameter ← finish nameStart (.typeParameter false) (name :: bound)
    finish start (.type .infer) [parameter]
  | _ => postfixType g

def joinedTypes (sign : Punct) (form : TypeForm) (operand : Parse Node) : Parse Node := do
  let start ← startOffset
  let leading ← eat sign
  let first ← operand
  let types ← extend [first] fun types => do
    if ← eat sign then
      let type ← operand
      return some (type :: types)
    else return none
  match types with
  | [type] => if leading then finish start (.type form) [type] else return type
  | types => finish start (.type form) types.reverse

/-- Reads a type. A function type is no operand of a union or intersection. -/
def type (g : Grammar) : Parse Node := do
  let start ← startOffset
  match ← functionType? g with
  | some type => return type
  | none =>
    let checked ← joinedTypes .bar .union (joinedTypes .amp .intersection g.typeOperand)
    let context ← read
    if !context.noConditionalType && (← seesWord .kwExtends) && !(← onNewLine) then
      next
      let bound ← withReader (fun context => { context with noConditionalType := true }) g.type
      expect .question
      let yes ← inBrackets g.type
      expect .colon
      let no ← inBrackets g.type
      finish start (.type .conditional) [checked, bound, yes, no]
    else return checked

end Polyview.Script
