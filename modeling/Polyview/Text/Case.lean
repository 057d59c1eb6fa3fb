import Polyview.Text.Blank
import Polyview.Text.Charset

/-! # Upper and lower case

The full Unicode case mappings of a character, of the first character of a name and of a whole text,
and the two spellings of compound names: camel case joins words by capitals, kebab case by hyphens. -/

namespace Polyview.Text

/-! ### Characters -/

/-- The image of `n` under the first run `(first, last, step, image)` that holds it. -/
def runImage (runs : List (Nat × Nat × Nat × Nat)) (n : Nat) : Nat :=
  match runs.find? (inRun n) with
  | some r => r.2.2.2 + (n - r.1)
  | none => n

def caseImage (many : List (Nat × List Nat)) (runs : List (Nat × Nat × Nat × Nat)) (c : Char) : List Char :=
  match many.find? fun e => e.1 == c.toNat with
  | some e => e.2.map Char.ofNat
  | none => [Char.ofNat (runImage runs c.toNat)]

def toAsciiUpper (c : Char) : Char := if isAsciiLower c then Char.ofNat (c.toNat - 32) else c

def toAsciiLower (c : Char) : Char := if isAsciiUpper c then Char.ofNat (c.toNat + 32) else c

def upperChar (c : Char) : List Char :=
  if isAscii c then [toAsciiUpper c] else caseImage Table.toUpperMany Table.toUpper c

def lowerChar (c : Char) : List Char :=
  if isAscii c then [toAsciiLower c] else caseImage Table.toLowerMany Table.toLower c

/-! ### Texts -/

/-- Whether the first character that is not case-ignorable is cased. -/
def startsCased (cs : List Char) : Bool :=
  match cs.dropWhile isCaseIgnorable with
  | [] => false
  | c :: _ => isCased c

/-- Lower case of a text, where `before` holds the characters already passed, nearest first. A sigma
that ends a word takes its final form. -/
def lowerFrom (before : List Char) : List Char → List Char
  | [] => []
  | c :: cs =>
    let image :=
      if c == 'Σ' then if startsCased before && !startsCased cs then ['ς'] else ['σ']
      else lowerChar c
    image ++ lowerFrom (c :: before) cs

def lowerChars (cs : List Char) : List Char := lowerFrom [] cs

def asciiLowercase (s : String) : String := String.ofList (s.toList.map toAsciiLower)

def capitalizeChars : List Char → List Char
  | [] => []
  | c :: cs => upperChar c ++ cs

def lowerFirstChars : List Char → List Char
  | [] => []
  | c :: cs => lowerChar c ++ cs

/-- Upper-cases the first character: `count` becomes `Count`. -/
def capitalize (name : String) : String := String.ofList (capitalizeChars name.toList)

/-- Lower-cases the first character: `ItemAdded` becomes `itemAdded`. -/
def lowerFirst (name : String) : String := String.ofList (lowerFirstChars name.toList)

/-! ### Compound names -/

/-- The characters that separate the words of a compound name. -/
def isWordSeparator (c : Char) : Bool := c == '-' || c == '_' || isBlank c

/-- Joins the words of a compound name. `gap` holds the separators passed since the last other
character, nearest first; they are dropped in front of an ASCII letter or digit, which is then
upper-cased, and kept elsewhere. -/
def joinWords (gap : List Char) : List Char → List Char
  | [] => gap.reverse
  | c :: cs =>
    if isWordSeparator c then joinWords (c :: gap) cs
    else if gap.isEmpty then c :: joinWords [] cs
    else if isAsciiAlphanumeric c then toAsciiUpper c :: joinWords [] cs
    else gap.reverse ++ c :: joinWords [] cs

/-- `card-header`, `card_header` and `card header` become `cardHeader`. -/
def camelCase (name : String) : String := String.ofList (lowerFirstChars (joinWords [] (trimChars name.toList)))

def splitHumps : List Char → List Char
  | [] => []
  | c :: cs =>
    let c' := if c == '_' then '-' else c
    match cs with
    | d :: _ =>
      if (isAsciiLower c || isAsciiDigit c) && isAsciiUpper d then c' :: '-' :: splitHumps cs
      else c' :: splitHumps cs
    | [] => [c']

/-- `TodoItem` becomes `todo-item`. -/
def kebabCase (name : String) : String := String.ofList (lowerChars (splitHumps name.toList))

end Polyview.Text
