import Polyview.Script.Node
import Polyview.Script.Scanner

/-! # Reading tokens

A rule of the grammar reads tokens from a cursor and returns a node. It may be rejected; a rule that is
only tried leaves the cursor where it was. Some faults do not stop a rule: they mark the script as flawed,
and a flawed script is refused when it is read to its end.

Rules that need one another are passed as a `Grammar`, so that every rule is a plain function. -/

namespace Polyview.Script

/-- Where reading stands: the current token, the text from it on and behind it, the end of the token before,
and what was noted on the way. -/
structure Cursor where
  token : Token
  here : List Char
  rest : List Char
  prevStop : Nat
  /-- Comments attached to tokens so far, the latest first. -/
  comments : List Comment
  flawed : Bool

structure Context where
  jsx : Bool
  /-- A number of steps that no list of the script exceeds. -/
  bound : Nat
  allowIn : Bool := true
  inGenerator : Bool := false
  inAsync : Bool := true
  inFunction : Bool := false
  inDecorator : Bool := false
  inAmbient : Bool := false
  /-- An `extends` belongs to the type around. -/
  noConditionalType : Bool := false

inductive Reject
  | unexpected
  | exhausted
deriving DecidableEq, Repr

abbrev Parse := ReaderT Context (StateT Cursor (Except Reject))

/-! ### Moving on -/

/-- Whether a line comment behind a token is attached to the next one. -/
def TokenKind.opensValue : TokenKind → Bool
  | .punct (.assign .plain) => true
  | .punct .lparen => true
  | _ => false

/-- The text behind a token that starts a text. What could not be read takes up nothing of it. -/
def Scanned.behind (scanned : Scanned) (here : List Char) : List Char :=
  match scanned.kind with
  | .invalid => here
  | _ => scanned.rest

def Cursor.place (gap : Gap) (start : Nat) (here : List Char) (scanned : Scanned) (prevStop : Nat)
    (comments : List Comment) (flawed : Bool) : Cursor where
  token := ⟨if gap.unclosed then .invalid else scanned.kind, ⟨start, start + scanned.size⟩, gap.newline⟩
  here := here
  rest := scanned.behind here
  prevStop := prevStop
  comments := gap.pending.map (fun span => ⟨span, start⟩) ++ comments
  flawed := flawed

def Cursor.first (start : Nat) (text : List Char) : Cursor :=
  let (gap, start, here) := skipGap false .blank { fresh := true } start text
  .place gap start here (scanToken here) start [] false

def Cursor.next (cursor : Cursor) : Cursor :=
  let stop := cursor.token.span.stop
  let (gap, start, here) := skipGap cursor.token.kind.opensValue .blank {} stop cursor.rest
  .place gap start here (scanToken here) stop cursor.comments cursor.flawed

/-- Moves on to the next token between tags, where blanks are text. -/
def Cursor.nextJsxChild (cursor : Cursor) : Cursor :=
  let stop := cursor.token.span.stop
  .place {} stop cursor.rest (scanJsxChild cursor.rest) stop cursor.comments cursor.flawed

def Cursor.nextJsxValue (cursor : Cursor) : Cursor :=
  let stop := cursor.token.span.stop
  match scanJsxString? cursor.rest with
  | some scanned => .place {} stop cursor.rest scanned stop cursor.comments cursor.flawed
  | none => cursor.next

def Cursor.rescan (cursor : Cursor) (scan : List Char → Scanned) : Cursor :=
  let scanned := scan cursor.here
  let start := cursor.token.span.start
  { cursor with
    token := { cursor.token with kind := scanned.kind, span := ⟨start, start + scanned.size⟩ }
    rest := scanned.behind cursor.here }

/-! ### Looking -/

def token : Parse Token := do
  return (← get).token

def tokenKind : Parse TokenKind := do
  return (← get).token.kind

def startOffset : Parse Nat := do
  return (← get).token.span.start

def prevStop : Parse Nat := do
  return (← get).prevStop

def onNewLine : Parse Bool := do
  return (← get).token.newline

def sees (sign : Punct) : Parse Bool := do
  return (← tokenKind) == .punct sign

def keyword? : Parse (Option Keyword) := do
  match ← tokenKind with
  | .word _ keyword => return keyword
  | _ => return none

def seesWord (keyword : Keyword) : Parse Bool := do
  return (← keyword?) == some keyword

def seesAnyWord : Parse Bool := do
  match ← tokenKind with
  | .word .. | .escapedWord _ => return true
  | _ => return false

/-- Whether a token can name a variable; words that only strict code reserves can. -/
def TokenKind.isIdentifier : TokenKind → Bool
  | .word _ none => true
  | .word _ (some keyword) => !keyword.isReserved
  | _ => false

def seesIdentifier : Parse Bool := do
  return (← tokenKind).isIdentifier

def TokenKind.isPropertyName : TokenKind → Bool
  | .word .. | .escapedWord _ | .string .. | .number .. | .bigint | .privateName .. => true
  | _ => false

/-! ### Reading -/

def reject {α : Type} : Parse α := throw .unexpected

def flaw : Parse Unit := modify fun cursor => { cursor with flawed := true }

def flawIf (condition : Bool) : Parse Unit := if condition then flaw else pure ()

def next : Parse Unit := modify Cursor.next

def eat (sign : Punct) : Parse Bool := do
  if ← sees sign then
    next
    return true
  else return false

def eatWord (keyword : Keyword) : Parse Bool := do
  if ← seesWord keyword then
    next
    return true
  else return false

def expect (sign : Punct) : Parse Unit := do
  if ← sees sign then next else reject

def expectWord (keyword : Keyword) : Parse Unit := do
  if ← seesWord keyword then next else reject

/-- A node from an offset to the end of the previous token. -/
def finish (start : Nat) (shape : Shape) (parts : List Node) : Parse Node := do
  return .mk shape ⟨start, ← prevStop⟩ parts

def leaf (shape : Shape) : Parse Node := do
  let start ← startOffset
  next
  finish start shape []

/-- Whether a statement may end here: at a semicolon, before a closing brace, at the end, or before a line
break. -/
def canEndStatement : Parse Bool := do
  match ← token with
  | ⟨.punct .semicolon, _, _⟩ | ⟨.punct .rbrace, _, _⟩ | ⟨.eof, _, _⟩ => return true
  | ⟨_, _, newline⟩ => return newline

def endStatement : Parse Unit := do
  if ← eat .semicolon then return ()
  else if ← canEndStatement then return ()
  else reject

/-! ### Trying -/

/-- Tries a rule; if it is rejected, nothing has happened. -/
def attempt {α : Type} (rule : Parse α) : Parse (Option α) := fun context cursor =>
  match rule context cursor with
  | .ok (value, after) => .ok (some value, after)
  | .error .unexpected => .ok (none, cursor)
  | .error .exhausted => .error .exhausted

/-- Whether a test succeeds ahead; the cursor stays. -/
def ahead (test : Parse Bool) : Parse Bool := fun context cursor =>
  match test context cursor with
  | .ok (value, _) => .ok (value, cursor)
  | .error .unexpected => .ok (false, cursor)
  | .error .exhausted => .error .exhausted

def nextIs (test : Token → Bool) : Parse Bool :=
  ahead do
    next
    return test (← token)

/-! ### Repeating -/

/-- Reads items until a test succeeds, `n` at most; those read so far stand in reverse. -/
def readUntil {α : Type} (stop : Parse Bool) (item : Parse α) : Nat → List α → Parse (List α)
  | 0, _ => throw .exhausted
  | n + 1, items => do
    if ← stop then return items.reverse
    else
      let value ← item
      readUntil stop item n (value :: items)

def manyUntil {α : Type} (stop : Parse Bool) (item : Parse α) : Parse (List α) := do
  readUntil stop item (← read).bound []

/-- Repeats a step that extends a value until it returns nothing, `n` times at most. -/
def extendWith {α : Type} (step : α → Parse (Option α)) : Nat → α → Parse α
  | 0, _ => throw .exhausted
  | n + 1, value => do
    match ← step value with
    | some extended => extendWith step n extended
    | none => return value

def extend {α : Type} (value : α) (step : α → Parse (Option α)) : Parse α := do
  extendWith step (← read).bound value

/-- Reads items separated by commas up to a closing sign, which stays; a comma may stand before it. -/
def commaList {α : Type} (close : Punct) (item : Parse α) : Parse (List α) :=
  manyUntil (sees close) do
    let value ← item
    if !(← sees close) then expect .comma
    return value

/-- Reads items separated by commas, at least one, up to the first missing comma. -/
def commaList1 {α : Type} (item : Parse α) : Parse (List α) := do
  let first ← item
  let items ← extend [first] fun items => do
    if ← eat .comma then
      let value ← item
      return some (value :: items)
    else return none
  return items.reverse

/-! ### Contexts -/

/-- Reads between brackets, where operators and decorators of the surroundings play no part. -/
def inBrackets {α : Type} (rule : Parse α) : Parse α :=
  withReader
    (fun context => { context with allowIn := true, inDecorator := false, noConditionalType := false })
    rule

/-! ### Names -/

def anyName : Parse String := do
  match ← tokenKind with
  | .word name _ | .escapedWord name =>
    next
    return name
  | _ => reject

/-- Reads a word that can name a variable. Inside asynchronous functions and generators `await` and `yield`
are not names. -/
def identifier : Parse String := do
  match ← tokenKind with
  | .word name keyword =>
    if (keyword.map Keyword.isReserved).getD false then reject
    let context ← read
    flawIf (keyword == some .kwAwait && context.inAsync)
    flawIf (keyword == some .kwYield && context.inGenerator)
    next
    return name
  | _ => reject

def reference : Parse Node := do
  let start ← startOffset
  let name ← identifier
  finish start (.reference name) []

def binding : Parse Node := do
  let start ← startOffset
  let name ← identifier
  finish start (.binding name) []

def plainName : Parse Node := do
  let start ← startOffset
  let name ← anyName
  finish start (.name name) []

/-! ### Rules that need one another -/

structure Grammar where
  expression : Parse Node
  /-- An expression without a comma; the mark tells that an arrow function may have a return type. -/
  assignment : Bool → Parse Node
  /-- Operands joined by binary operators that bind tighter than a level. -/
  binary : Nat → Parse Node
  unary : Parse Node
  leftHandSide : Parse Node
  constructed : Parse Node
  pattern : Parse Node
  type : Parse Node
  /-- A type as it may follow an operator such as `keyof`. -/
  typeOperand : Parse Node
  statement : Parse Node
  /-- Markup; the mark tells that it stands between tags. -/
  markup : Bool → Parse Node

def Grammar.empty : Grammar where
  expression := throw .exhausted
  assignment _ := throw .exhausted
  binary _ := throw .exhausted
  unary := throw .exhausted
  leftHandSide := throw .exhausted
  constructed := throw .exhausted
  pattern := throw .exhausted
  type := throw .exhausted
  typeOperand := throw .exhausted
  statement := throw .exhausted
  markup _ := throw .exhausted

end Polyview.Script
