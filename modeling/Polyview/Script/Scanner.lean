import Polyview.Script.Escape
import Polyview.Script.Gap

/-! # Scanning tokens

Every function here reads from the front of a text and returns what it has read, the number of bytes it
has read, and the rest. What cannot be read is an invalid token, which no rule of the grammar accepts. -/

namespace Polyview.Script

open Text

/-- A token without its place: its kind, its length in bytes, and the text behind it. -/
structure Scanned where
  kind : TokenKind
  size : Nat
  rest : List Char

def Scanned.invalid (cs : List Char) : Scanned := ⟨.invalid, 0, cs⟩

/-! ### Words -/

/-- Reads a word that may hold escapes; `first` tells that its first character is still to come. -/
def scanEscapedWord : (first : Bool) → EscapeMode → List Char → Option (List Char × Nat × List Char)
  | _, .braced _, [] => none
  | first, .plain, [] => if first then none else some ([], 0, [])
  | first, .braced code, c :: cs =>
    if c == '\x7d' then
      let d := Char.ofNat code
      if if first then isIdentifierStart d else isIdentifierPart d then
        (scanEscapedWord false .plain cs).map fun (name, size, rest) => (d :: name, size + 1, rest)
      else none
    else
      match hexValue? c with
      | some v =>
        if 16 * code + v ≤ 0x10FFFF then
          (scanEscapedWord first (.braced (16 * code + v)) cs).map fun (name, size, rest) => (name, size + 1, rest)
        else none
      | none => none
  | first, .plain, c :: cs =>
    if c == '\\' then
      match cs with
      | 'u' :: '\x7b' :: rest =>
        (scanEscapedWord first (.braced 0) rest).map fun (name, size, rest) => (name, size + 3, rest)
      | 'u' :: d1 :: d2 :: d3 :: d4 :: rest =>
        match hexNumber? [d1, d2, d3, d4] with
        | some code =>
          let d := Char.ofNat code
          if if first then isIdentifierStart d else isIdentifierPart d then
            (scanEscapedWord false .plain rest).map fun (name, size, rest) => (d :: name, size + 6, rest)
          else none
        | none => none
      | _ => none
    else if if first then isIdentifierStart c else isIdentifierPart c then
      (scanEscapedWord false .plain cs).map fun (name, size, rest) => (c :: name, size + c.utf8Size, rest)
    else if first then none
    else some ([], 0, c :: cs)

/-- The kind of a word. Written with escapes it is no keyword, and a reserved word names properties only. -/
def wordKind (name : List Char) (escaped : Bool) : TokenKind :=
  match keywordOf? name with
  | some keyword =>
    if escaped then
      if keyword.isReserved then .escapedWord (String.ofList name) else .word (String.ofList name) none
    else .word (String.ofList name) (some keyword)
  | none => .word (String.ofList name) none

/-- Reads a name: its characters, whether it holds escapes, its length in bytes and the rest. -/
def scanName? (cs : List Char) : Option (List Char × Bool × Nat × List Char) :=
  let name := cs.takeWhile isIdentifierPart
  let rest := cs.dropWhile isIdentifierPart
  match rest with
  | '\\' :: _ => (scanEscapedWord true .plain cs).map fun (name, size, rest) => (name, true, size, rest)
  | _ =>
    match name with
    | c :: _ => if isIdentifierStart c then some (name, false, byteLength name, rest) else none
    | [] => none

def scanWord (cs : List Char) : Scanned :=
  match scanName? cs with
  | some (name, escaped, size, rest) => ⟨wordKind name escaped, size, rest⟩
  | none => .invalid cs

def scanPrivateName (cs : List Char) : Scanned :=
  match scanName? cs with
  | some (name, _, size, rest) => ⟨.privateName (String.ofList name), size + 1, rest⟩
  | none => .invalid cs

/-! ### Numbers -/

/-- Digits with single separators between them; `digit` tells that a digit precedes. -/
def isSeparated : (digit : Bool) → List Char → Bool
  | digit, [] => digit
  | digit, c :: cs => if c == '_' then digit && isSeparated false cs else isSeparated true cs

def scanDigits? (isDigit : Char → Bool) (cs : List Char) : Option (Nat × List Char) :=
  let digits := cs.takeWhile fun c => isDigit c || c == '_'
  if isSeparated false digits then some (digits.length, cs.drop digits.length) else none

def scanExponent? (cs : List Char) : Option (Nat × List Char) :=
  match cs with
  | e :: rest =>
    if e == 'e' || e == 'E' then
      let (sign, digits) := match rest with
        | '+' :: digits => (1, digits)
        | '-' :: digits => (1, digits)
        | _ => (0, rest)
      (scanDigits? isAsciiDigit digits).map fun (size, rest) => (1 + sign + size, rest)
    else some (0, cs)
  | [] => some (0, cs)

def scanFraction? (cs : List Char) : Option (Nat × List Char) :=
  match cs with
  | '.' :: rest =>
    let digits? := match rest with
      | d :: _ => if isAsciiDigit d then scanDigits? isAsciiDigit rest else some (0, rest)
      | [] => some (0, rest)
    digits?.bind fun (size, rest) => (scanExponent? rest).map fun (more, rest) => (1 + size + more, rest)
  | _ => scanExponent? cs

/-- A number ends where no word goes on. -/
def endNumber (kind : TokenKind) (size : Nat) (rest : List Char) : Scanned :=
  match rest with
  | c :: _ => if isIdentifierPart c || c == '\\' then .invalid rest else ⟨kind, size, rest⟩
  | [] => ⟨kind, size, rest⟩

def scanRadix (isDigit : Char → Bool) (cs : List Char) : Scanned :=
  match scanDigits? isDigit cs with
  | some (size, 'n' :: rest) => endNumber .bigint (size + 3) rest
  | some (size, rest) => endNumber (.number false) (size + 2) rest
  | none => .invalid cs

def scanDecimal (cs : List Char) : Scanned :=
  match cs with
  | '.' :: _ =>
    match scanFraction? cs with
    | some (size, rest) => endNumber (.number false) size rest
    | none => .invalid cs
  | _ =>
    match scanDigits? isAsciiDigit cs with
    | some (size, 'n' :: rest) => endNumber .bigint (size + 1) rest
    | some (size, rest) =>
      match scanFraction? rest with
      | some (more, rest) => endNumber (.number false) (size + more) rest
      | none => .invalid cs
    | none => .invalid cs

/-- Reads a number that starts with a superfluous zero. -/
def scanLegacyNumber (cs : List Char) : Scanned :=
  let digits := cs.takeWhile isAsciiDigit
  let rest := cs.drop digits.length
  if digits.all fun d => (octalValue? d).isSome then endNumber (.number true) digits.length rest
  else
    match scanFraction? rest with
    | some (more, rest) => endNumber (.number true) (digits.length + more) rest
    | none => .invalid cs

def scanNumber (cs : List Char) : Scanned :=
  match cs with
  | '0' :: mark :: rest =>
    if mark == 'x' || mark == 'X' then scanRadix (fun c => (hexValue? c).isSome) rest
    else if mark == 'o' || mark == 'O' then scanRadix (fun c => (octalValue? c).isSome) rest
    else if mark == 'b' || mark == 'B' then scanRadix (fun c => c == '0' || c == '1') rest
    else if isAsciiDigit mark then scanLegacyNumber cs
    else if mark == '_' then .invalid cs
    else scanDecimal cs
  | _ => scanDecimal cs

/-! ### Strings and templates -/

/-- The inside of a string and the text behind its closing quote. -/
def splitQuoted? (quote : Char) : (escaped : Bool) → List Char → Option (List Char × List Char)
  | _, [] => none
  | true, c :: cs =>
    match c, cs with
    | '\r', '\n' :: rest => (splitQuoted? quote false rest).map fun (inside, rest) => ('\r' :: '\n' :: inside, rest)
    | c, cs => (splitQuoted? quote false cs).map fun (inside, rest) => (c :: inside, rest)
  | false, c :: cs =>
    if c == quote then some ([], cs)
    else if c == '\n' || c == '\r' then none
    else (splitQuoted? quote (c == '\\') cs).map fun (inside, rest) => (c :: inside, rest)

def scanString (quote : Char) (cs : List Char) : Scanned :=
  match splitQuoted? quote false cs with
  | some (inside, rest) =>
    match cook .plain inside with
    | some (codes, legacy) => ⟨.string (textOfCodes codes) legacy, byteLength inside + 2, rest⟩
    | none => .invalid cs
  | none => .invalid cs

/-- A part of a template literal, whether it ends the literal, and the text behind it. -/
def splitTemplate? : (escaped : Bool) → List Char → Option (List Char × Bool × List Char)
  | _, [] => none
  | true, c :: cs => (splitTemplate? false cs).map fun (part, closed, rest) => (c :: part, closed, rest)
  | false, c :: cs =>
    if c == '`' then some ([], true, cs)
    else if c == '$' then
      match cs with
      | '\x7b' :: rest => some ([], false, rest)
      | _ => (splitTemplate? false cs).map fun (part, closed, rest) => (c :: part, closed, rest)
    else (splitTemplate? (c == '\\') cs).map fun (part, closed, rest) => (c :: part, closed, rest)

def scanTemplate (cs : List Char) : Scanned :=
  match splitTemplate? false cs with
  | some (part, closed, rest) =>
    let valid := match cook .plain part with
      | some (_, legacy) => !legacy
      | none => false
    ⟨.template closed valid, byteLength part + (if closed then 2 else 3), rest⟩
  | none => .invalid cs

/-! ### Regular expressions -/

def splitRegex? : (escaped inClass : Bool) → List Char → Option (List Char × List Char)
  | _, _, [] => none
  | escaped, inClass, c :: cs =>
    if isLineBreak c then none
    else if !escaped && !inClass && c == '/' then some ([], cs)
    else
      let inClass := if escaped then inClass else c == '[' || (inClass && c != ']')
      (splitRegex? (!escaped && c == '\\') inClass cs).map fun (body, rest) => (c :: body, rest)

/-- Whether characters are known flags of regular expressions, each once. -/
def areFlags : List Char → Bool
  | [] => true
  | c :: cs => "dgimsuvy".toList.contains c && !cs.contains c && areFlags cs

/-- Flags of a regular expression: known ones, each once, and not both of `u` and `v`. -/
def validFlags (flags : List Char) : Bool := areFlags flags && !(flags.contains 'u' && flags.contains 'v')

def scanRegex (cs : List Char) : Scanned :=
  match splitRegex? false false cs with
  | some (body, rest) =>
    let flags := rest.takeWhile isIdentifierPart
    if validFlags flags then ⟨.regex, byteLength body + 2 + flags.length, rest.drop flags.length⟩
    else .invalid cs
  | none => .invalid cs

/-! ### Signs -/

def scanPunctOf (table : List (List Char × Punct)) (cs : List Char) : Scanned :=
  match table.find? fun entry => entry.1.isPrefixOf cs with
  | some (spelling, sign) => ⟨.punct sign, spelling.length, cs.drop spelling.length⟩
  | none => .invalid cs

/-- Reads a sign. A `?.` in front of a digit is a `?`. -/
def scanPunct (cs : List Char) : Scanned :=
  match cs with
  | '?' :: '.' :: d :: rest =>
    if isAsciiDigit d then ⟨.punct .question, 1, '.' :: d :: rest⟩ else scanPunctOf punctTable cs
  | _ => scanPunctOf punctTable cs

/-! ### Tokens -/

def scanToken (cs : List Char) : Scanned :=
  match cs with
  | [] => ⟨.eof, 0, []⟩
  | c :: rest =>
    if isIdentifierStart c || c == '\\' then scanWord cs
    else if isAsciiDigit c then scanNumber cs
    else if c == '"' || c == '\'' then scanString c rest
    else if c == '`' then scanTemplate rest
    else if c == '#' then scanPrivateName rest
    else if c == '.' && (rest.head?.map isAsciiDigit).getD false then scanNumber cs
    else scanPunct cs

/-! ### Between tags -/

/-- Reads a token between tags: a brace, an angle bracket, or the text before the next one. Text holds
neither `>` nor a closing brace. -/
def scanJsxChild (cs : List Char) : Scanned :=
  match cs with
  | [] => ⟨.eof, 0, []⟩
  | '\x7b' :: rest => ⟨.punct .lbrace, 1, rest⟩
  | '<' :: rest => ⟨.punct .less, 1, rest⟩
  | _ =>
    let text := cs.takeWhile fun c => c != '\x7b' && c != '<'
    if text.any fun c => c == '>' || c == '\x7d' then .invalid cs
    else ⟨.jsxText, byteLength text, cs.drop text.length⟩

def scanJsxName (cs : List Char) : Scanned :=
  match scanName? cs with
  | some (name, _, size, rest) =>
    let tail := rest.takeWhile fun c => isIdentifierPart c || c == '-'
    if tail.head? == some '-' then
      ⟨.word (String.ofList (name ++ tail)) none, size + byteLength tail, rest.drop tail.length⟩
    else ⟨.word (String.ofList name) none, size, rest⟩
  | none => .invalid cs

/-- Reads the value of an attribute behind its `=`, if it is a string that follows directly. Such a
string has no escapes and may hold line breaks. -/
def scanJsxString? (cs : List Char) : Option Scanned :=
  match cs with
  | q :: rest =>
    if q == '"' || q == '\'' then
      let inside := rest.takeWhile (· != q)
      match rest.drop inside.length with
      | _ :: after => some ⟨.string (String.ofList inside) false, byteLength inside + 2, after⟩
      | [] => some (.invalid cs)
    else none
  | [] => none

end Polyview.Script
