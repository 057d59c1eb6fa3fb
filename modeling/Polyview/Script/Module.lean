import Polyview.Script.Statement

/-! # Modules

Imports and exports, and whole scripts. -/

namespace Polyview.Script

/-! ### Imports -/

def seesEntityName : Parse Bool := do
  match ← tokenKind with
  | .word .. | .escapedWord _ | .string .. => return true
  | _ => return false

def entityName : Parse Node := do
  match ← tokenKind with
  | .string value legacy => leaf (.string value legacy)
  | _ => plainName

def entityText (node : Node) : String :=
  match node.shape with
  | .name text => text
  | .string value _ => value
  | .reference name => name
  | _ => ""

/-- The names of a specifier: whether it is for types only, the name in the module, and the other name. -/
structure SpecifierNames where
  typeOnly : Bool
  first : Node
  second : Option Node

/-- Reads the names of a specifier. The word `type` in front is a mark unless it is a name itself. -/
def specifierNames : Parse SpecifierNames := do
  let first ← entityName
  if first.shape == .name "type" then
    if ← seesWord .kwAs then
      let firstAs ← plainName
      if ← seesWord .kwAs then
        let secondAs ← plainName
        if ← seesEntityName then return ⟨true, firstAs, some (← entityName)⟩
        else return ⟨false, first, some secondAs⟩
      else if ← seesEntityName then return ⟨false, first, some (← entityName)⟩
      else return ⟨true, firstAs, none⟩
    else if ← seesEntityName then
      let name ← entityName
      if ← eatWord .kwAs then return ⟨true, name, some (← entityName)⟩
      else return ⟨true, name, none⟩
    else return ⟨false, first, none⟩
  else if ← eatWord .kwAs then return ⟨false, first, some (← entityName)⟩
  else return ⟨false, first, none⟩

def isBindable (node : Node) : Bool :=
  match node.shape with
  | .name text => !((keywordOf? text.toList).map Keyword.isReserved).getD false
  | _ => false

/-- Reads an imported name. Where the whole import is for types only, no name is marked once more. -/
def importSpecifier (isTypeOnly : Bool) : Parse Node := do
  let start ← startOffset
  let names ← specifierNames
  flawIf (isTypeOnly && names.typeOnly)
  let bound := names.second.getD names.first
  let context ← read
  flawIf (context.inAsync && bound.shape == .name "await")
  if isBindable bound then
    finish start (.importNamed (entityText names.first) names.typeOnly)
      [.mk (.binding (entityText bound)) bound.span []]
  else reject

def importSpecifiers (isTypeOnly : Bool) : Parse (List Node) := do
  expect .lbrace
  let specifiers ← commaList .rbrace (importSpecifier isTypeOnly)
  expect .rbrace
  return specifiers

def namespaceSpecifier : Parse Node := do
  let start ← startOffset
  expect .star
  expectWord .kwAs
  let name ← binding
  finish start .importNamespace [name]

/-- Skips an attribute of an import: a key and a string. Returns the key. -/
def importAttribute : Parse String := do
  let key ← entityName
  expect .colon
  let _ ← moduleName
  return entityText key

def importAttributes : Parse Unit := do
  let cursor ← get
  let isMark := match cursor.token.kind with
    | .word name _ => name == "with" || (name == "assert" && !cursor.token.newline)
    | _ => false
  if isMark then
    next
    expect .lbrace
    let keys ← commaList .rbrace importAttribute
    expect .rbrace
    flawIf (keys.eraseDups.length != keys.length)

def moduleClause : Parse String := do
  let source ← moduleName
  importAttributes
  endStatement
  return source

/-- Reads the specifiers of an import behind its first name, and its module. Behind a mark, one kind of them
has to be enough. -/
def importRest (start : Nat) (isTypeOnly isPhase : Bool) (first : List Node) : Parse Node := do
  let isMixed ← eat .comma
  if isMixed && first.isEmpty then reject
  flawIf (isMixed && (isTypeOnly || isPhase))
  let more ← if first.isEmpty || isMixed then
      if ← sees .star then pure [← namespaceSpecifier] else importSpecifiers isTypeOnly
    else pure []
  expectWord .kwFrom
  let source ← moduleClause
  finish start (.importDeclaration source isTypeOnly) (first ++ more)

/-- Whether `type` here marks an import for types only: a name follows that is not just `from`, or names in
braces, or the whole module. -/
def seesImportType : Parse Bool := do
  if ← seesWord .kwType then
    ahead do
      next
      match ← tokenKind with
      | .punct .star | .punct .lbrace => return true
      | .word _ (some .kwFrom) =>
        nextIs fun t => t.kind == .word "from" (some .kwFrom) || t.kind == .punct (.assign .plain)
      | kind => return kind.isIdentifier
  else return false

def seesImportPhase : Parse Bool := do
  match ← keyword? with
  | some .kwDefer => nextIs fun t => t.kind == .punct .star
  | some .kwSource => nextIs fun t => t.kind.isIdentifier && t.kind != .word "from" (some .kwFrom)
  | _ => return false

def importDeclaration : Parse Node := do
  let start ← startOffset
  expectWord .kwImport
  match ← tokenKind with
  | .string .. =>
    let source ← moduleClause
    finish start (.importDeclaration source false) []
  | _ =>
    let isTypeOnly ← seesImportType
    let isPhase ← if isTypeOnly then pure false else seesImportPhase
    if isTypeOnly || isPhase then next
    if ← seesIdentifier then
      let nameStart ← startOffset
      let name ← binding
      if ← sees (.assign .plain) then importEqualsRest start isTypeOnly name
      else
        let first ← finish nameStart .importDefault [name]
        importRest start isTypeOnly isPhase [first]
    else importRest start isTypeOnly isPhase []

/-! ### Exports -/

/-- Reads an exported name. Where the whole export is for types only, no name is marked once more. -/
def exportSpecifier (isTypeOnly : Bool) : Parse Node := do
  let start ← startOffset
  let names ← specifierNames
  flawIf (isTypeOnly && names.typeOnly)
  finish start .exportSpecifier [names.first]

/-- Whether a word cannot name a variable that is exported. -/
def isUnexportable (text : String) : Bool :=
  match keywordOf? text.toList with
  | some .kwLet => false
  | some keyword => keyword.isReserved || keyword.isStrictReserved || keyword == .kwAwait
  | none => false

def ownSpecifier : Node → Option Node
  | .mk .exportSpecifier span [.mk (.name text) nameSpan _] =>
    if isUnexportable text then none
    else some (.mk .exportSpecifier span [.mk (.reference text) nameSpan []])
  | _ => none

def exportNames (start : Nat) (isTypeOnly : Bool) : Parse Node := do
  expect .lbrace
  let specifiers ← commaList .rbrace (exportSpecifier isTypeOnly)
  expect .rbrace
  if ← eatWord .kwFrom then
    let _ ← moduleClause
    finish start (.exportNamed isTypeOnly) specifiers
  else
    endStatement
    match specifiers.mapM ownSpecifier with
    | some own => finish start (.exportNamed isTypeOnly) own
    | none => reject

def exportAll (start : Nat) : Parse Node := do
  expect .star
  if ← eatWord .kwAs then
    let _ ← entityName
  expectWord .kwFrom
  let _ ← moduleClause
  finish start .exportAll []

/-- Reads decorators behind `export`, where others may stand in front of it but not both. -/
def exportMarks (g : Grammar) (marks : List Node) : Parse (List Node) := do
  let more ← decorators g
  flawIf (!marks.isEmpty && !more.isEmpty)
  return marks ++ more

def refuseMarks (marks : List Node) (declared : Node) : Parse Unit :=
  match declared.shape with
  | .classNode true _ => pure ()
  | _ => flawIf !marks.isEmpty

def exportDefault (g : Grammar) (start : Nat) (marks : List Node) : Parse Node := do
  expectWord .kwDefault
  let valueStart ← startOffset
  let marks ← exportMarks g marks
  let value ← match ← keyword? with
    | some .kwClass => classRest g valueStart true {} marks
    | some .kwAbstract =>
      if ← nextIs fun t => t.kind == .word "class" (some .kwClass) && !t.newline then
        next
        classRest g valueStart true { isAbstract := true } marks
      else
        let value ← g.assignment true
        endStatement
        pure value
    | some .kwFunction => functionWithName g valueStart .declaration false true
    | some .kwAsync =>
      if ← nextIs fun t => t.kind == .word "function" (some .kwFunction) && !t.newline then
        next
        functionWithName g valueStart .declaration true true
      else
        let value ← g.assignment true
        endStatement
        pure value
    | some .kwInterface =>
      if ← nextIsNameOnLine then interfaceDeclaration g valueStart
      else
        let value ← g.assignment true
        endStatement
        pure value
    | _ =>
      let value ← g.assignment true
      endStatement
      pure value
  refuseMarks marks value
  finish start .exportDefault [value]

def exportDeclared (g : Grammar) (start : Nat) (marks : List Node) : Parse Node := do
  let declarationStart ← startOffset
  let marks ← exportMarks g marks
  match ← anyDeclaration? g declarationStart marks with
  | some declared =>
    match declared.shape with
    | .varDeclaration kind _ => if kind.isUsing then reject
    | _ => pure ()
    refuseMarks marks declared
    finish start (.exportNamed false) [declared]
  | none => reject

def exportList? (g : Grammar) (start : Nat) : Parse (Option Node) := do
  match ← tokenKind with
  | .punct .star => return some (← exportAll start)
  | .punct .lbrace => return some (← exportNames start false)
  | .punct (.assign .plain) =>
    next
    let value ← g.expression
    endStatement
    return some (← finish start .exportAssignment [value])
  | .word _ (some .kwImport) =>
    let value ← importDeclaration
    match value.shape with
    | .importEquals _ => return some (← finish start (.exportNamed false) [value])
    | _ => reject
  | .word _ (some .kwAs) =>
    next
    expectWord .kwNamespace
    let _ ← plainName
    endStatement
    return some (← finish start .exportNamespace [])
  | .word _ (some .kwType) =>
    if ← nextIs fun t => t.kind == .punct .lbrace || t.kind == .punct .star then
      next
      if ← sees .star then return some (← exportAll start) else return some (← exportNames start true)
    else return none
  | _ => return none

def exportDeclaration (g : Grammar) (marks : List Node) : Parse Node := do
  let start ← startOffset
  expectWord .kwExport
  if ← seesWord .kwDefault then exportDefault g start marks
  else
    match ← exportList? g start with
    | some node =>
      flawIf !marks.isEmpty
      return node
    | none => exportDeclared g start marks

/-! ### Scripts -/

def seesImportDeclaration : Parse Bool := do
  if ← seesWord .kwImport then
    nextIs fun t => t.kind != .punct .lparen && t.kind != .punct .dot
  else return false

def moduleItem (g : Grammar) : Parse Node := do
  if ← seesImportDeclaration then importDeclaration
  else if ← seesWord .kwExport then exportDeclaration g []
  else if ← sees .decorator then
    let cursor ← get
    let marks ← decorators g
    if ← seesWord .kwExport then exportDeclaration g marks
    else
      set cursor
      statement g
  else statement g

/-- The rules of the grammar, `n` levels deep. -/
def Grammar.level : Nat → Grammar
  | 0 => .empty
  | n + 1 =>
    { expression := fun context cursor => Script.expression (level n) context cursor
      assignment := fun allowReturn context cursor => Script.assignment (level n) allowReturn context cursor
      binary := fun tightness context cursor => Script.binary (level n) tightness context cursor
      unary := fun context cursor => Script.unary (level n) context cursor
      leftHandSide := fun context cursor => Script.leftHandSide (level n) context cursor
      constructed := fun context cursor => Script.constructed (level n) context cursor
      pattern := fun context cursor => Script.pattern (level n) context cursor
      type := fun context cursor => Script.type (level n) context cursor
      typeOperand := fun context cursor => Script.typeOperand (level n) context cursor
      statement := fun context cursor => Script.moduleItem (level n) context cursor
      markup := fun betweenTags context cursor => Script.markup (level n) betweenTags context cursor }

def script (g : Grammar) : Parse Node := do
  let start ← startOffset
  let atEnd : Parse Bool := do return (← tokenKind) == .eof
  let statements ← manyUntil atEnd g.statement
  finish start .program (statements.dropWhile isDirective)

end Polyview.Script
