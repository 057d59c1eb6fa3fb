import Polyview.Text.Case

/-! # Names and literals by their spelling

What the spelling of a short text tells: whether it is a plain identifier, names a component rather than
an element, names an event handler, or is a literal of a primitive type. -/

namespace Polyview.Text

def isNameStart (c : Char) : Bool := isAsciiUpper c || isAsciiLower c || c == '_' || c == '$'

/-- The characters that may continue a plain identifier. -/
def isNamePart (c : Char) : Bool := isNameStart c || isAsciiDigit c

def isIdentifierChars : List Char → Bool
  | [] => false
  | c :: cs => isNameStart c && cs.all isNamePart

def isIdentifier (name : String) : Bool := isIdentifierChars name.toList

/-- A tag that names a component: it starts with an upper-case character. -/
def isComponentTag (tag : String) : Bool :=
  match tag.toList with
  | [] => false
  | c :: _ => isUpper c

/-- A tag that names an element of the page: it starts with a lower-case character. -/
def isElementTag (tag : String) : Bool :=
  match tag.toList with
  | [] => false
  | c :: _ => isLower c

/-! ### Numbers -/

def dropDigits1? : List Char → Option (List Char)
  | [] => none
  | c :: cs => if isDecimalDigit c then some (cs.dropWhile isDecimalDigit) else none

/-- Skips the digits of a number: digits and `_` with an optional fraction, or a fraction alone. -/
def dropMantissa? : List Char → Option (List Char)
  | '.' :: cs => dropDigits1? cs
  | c :: cs =>
    if isDecimalDigit c then
      match cs.dropWhile fun d => isDecimalDigit d || d == '_' with
      | '.' :: rest => some (rest.dropWhile isDecimalDigit)
      | rest => some rest
    else none
  | [] => none

def isExponentEnd : List Char → Bool
  | [] => true
  | e :: cs =>
    (e == 'e' || e == 'E') &&
      match cs with
      | '-' :: ds => dropDigits1? ds == some []
      | '+' :: ds => dropDigits1? ds == some []
      | ds => dropDigits1? ds == some []

def isNumberChars (cs : List Char) : Bool :=
  match dropMantissa? (match cs with | '-' :: rest => rest | _ => cs) with
  | some rest => isExponentEnd rest
  | none => false

/-! ### Types of literals -/

inductive LiteralType
  | string
  | boolean
  | number
  | unknown
deriving DecidableEq, Repr

def LiteralType.name : LiteralType → String
  | .string => "string"
  | .boolean => "boolean"
  | .number => "number"
  | .unknown => "unknown"

/-- The type that the spelling of an initial value shows. -/
def literalType (code : String) : LiteralType :=
  let cs := trimChars code.toList
  match cs with
  | '"' :: _ => .string
  | '\'' :: _ => .string
  | '`' :: _ => .string
  | _ =>
    if cs == "true".toList || cs == "false".toList then .boolean
    else if isNumberChars cs then .number
    else .unknown

/-! ### Attributes and handlers -/

/-- The markup name of an attribute: `className` is `class` and `htmlFor` is `for`. -/
def htmlAttributeName (name : String) : String :=
  if name == "className" then "class" else if name == "htmlFor" then "for" else name

/-- The event a handler attribute listens to: `onClick` gives `click`. -/
def eventAttribute? (name : String) : Option String :=
  match name.toList with
  | 'o' :: 'n' :: c :: cs => if isAsciiUpper c then some (String.ofList (lowerFirstChars (c :: cs))) else none
  | _ => none

/-- The name of the function that sets a state member: `count` gives `setCount`. -/
def setterName (member : String) : String := "set" ++ capitalize member

end Polyview.Text
