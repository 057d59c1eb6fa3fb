import Polyview.Script.Type

/-! # Markup

Elements and fragments between tags. Text between tags is kept as written; a tag whose name starts with a
lower-case letter or holds a dash names no variable. -/

namespace Polyview.Script

open Text

/-- Moves on to the next token; between tags, the next token is text. -/
def nextAfter (betweenTags : Bool) : Parse Unit :=
  modify fun cursor => if betweenTags then cursor.nextJsxChild else cursor.next

def expectThen (betweenTags : Bool) (sign : Punct) : Parse Unit := do
  if ← sees sign then nextAfter betweenTags else reject

/-! ### Names -/

def jsxName : Parse String := do
  if ← seesAnyWord then
    modify fun cursor => cursor.rescan scanJsxName
    anyName
  else reject

def isTagReference (name : String) : Bool :=
  match name.toList with
  | c :: cs => !isAsciiLower c && !(c :: cs).contains '-'
  | [] => false

/-- The head of a tag name: `this`, a variable, or a plain name. -/
def tagHead (start : Nat) (name : String) (isObject : Bool) : Parse Node :=
  if name == "this" then finish start .this []
  else if isObject || isTagReference name then finish start (.reference name) []
  else finish start (.name name) []

/-- Reads a tag name. A name behind a dot holds no dash. -/
def tagName : Parse Node := do
  let start ← startOffset
  let name ← jsxName
  if ← eat .colon then
    let text ← jsxName
    finish start (.jsxNamespaced name text) []
  else
    let head ← tagHead start name (← sees .dot)
    extend head fun object => do
      if ← eat .dot then
        let text ← jsxName
        flawIf (text.toList.contains '-')
        return some (← finish start (.jsxMember text) [object])
      else return none

mutual
def sameTag : Node → Node → Bool
  | .mk shape _ parts, .mk shape' _ parts' => shape == shape' && sameTags parts parts'

def sameTags : List Node → List Node → Bool
  | [], [] => true
  | a :: as, b :: bs => sameTag a b && sameTags as bs
  | _, _ => false
end

/-! ### Attributes -/

def jsxContainer (g : Grammar) (start : Nat) (betweenTags : Bool) : Parse Node := do
  if ← sees .rbrace then
    let empty ← finish (← prevStop) .jsxEmpty []
    expectThen betweenTags .rbrace
    finish start .jsxContainer [empty]
  else
    let value ← inBrackets g.expression
    expectThen betweenTags .rbrace
    finish start .jsxContainer [value]

def jsxValue (g : Grammar) : Parse Node := do
  let start ← startOffset
  match ← tokenKind with
  | .string value legacy => leaf (.string value legacy)
  | .punct .less => g.markup false
  | .punct .lbrace =>
    next
    let value ← jsxContainer g start false
    flawIf ((value.part?.map Node.shape) == some .jsxEmpty)
    return value
  | _ => reject

def jsxAttribute (g : Grammar) : Parse Node := do
  let start ← startOffset
  if ← eat .lbrace then
    expect .ellipsis
    let value ← inBrackets g.expression
    expect .rbrace
    finish start .jsxSpreadAttribute [value]
  else
    let name ← jsxName
    let name ← if ← eat .colon then
        let text ← jsxName
        pure (name ++ ":" ++ text)
      else pure name
    if ← sees (.assign .plain) then
      modify Cursor.nextJsxValue
      let value ← jsxValue g
      finish start (.jsxAttribute name) [value]
    else finish start (.jsxAttribute name) []

/-! ### Elements -/

def seesClosingTag : Parse Bool := do
  if ← sees .less then nextIs fun t => t.kind == .punct .slash else return false

def jsxChild (g : Grammar) : Parse Node := do
  let start ← startOffset
  match ← tokenKind with
  | .jsxText =>
    nextAfter true
    finish start .jsxText []
  | .punct .less => g.markup true
  | .punct .lbrace =>
    next
    if ← eat .ellipsis then
      let value ← inBrackets g.expression
      expectThen true .rbrace
      finish start .jsxSpreadChild [value]
    else jsxContainer g start true
  | _ => reject

def jsxChildren (g : Grammar) : Parse (List Node) := manyUntil seesClosingTag (jsxChild g)

def fragment (g : Grammar) (start : Nat) (betweenTags : Bool) : Parse Node := do
  expectThen true .greater
  let children ← jsxChildren g
  expect .less
  expect .slash
  expectThen betweenTags .greater
  finish start .jsxFragment children

def endsTag : Parse Bool := do
  return (← sees .greater) || (← sees .slash)

def tagParts (g : Grammar) : Parse (List Node) := do
  let arguments ← if ← seesLess then pure [← typeArguments g] else pure []
  let attributes ← manyUntil endsTag (jsxAttribute g)
  return arguments ++ attributes

def closingTag (name : Node) (betweenTags : Bool) : Parse Node := do
  let start ← startOffset
  expect .less
  expect .slash
  let closeName ← tagName
  flawIf !(sameTag name closeName)
  expectThen betweenTags .greater
  finish start .jsxClosing [closeName]

def element (g : Grammar) (start : Nat) (betweenTags : Bool) : Parse Node := do
  let name ← tagName
  let parts ← tagParts g
  let selfClosing ← eat .slash
  expectThen (!selfClosing || betweenTags) .greater
  let opening ← finish start (.jsxOpening selfClosing) (name :: parts)
  if selfClosing then finish start .jsxElement [opening]
  else
    let children ← jsxChildren g
    let closing ← closingTag name betweenTags
    finish start .jsxElement (opening :: children ++ [closing])

def markup (g : Grammar) (betweenTags : Bool) : Parse Node := do
  let start ← startOffset
  expect .less
  if ← sees .greater then fragment g start betweenTags else element g start betweenTags

end Polyview.Script
