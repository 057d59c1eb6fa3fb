/-! # Quoted texts

Double-quoted texts with backslash escapes, and texts inside template literals, where backslashes,
backticks and the start of a substitution are escaped. -/

namespace Polyview.Text

/-! ### Double quotes -/

def hexDigit (n : Nat) : Char := if n < 10 then Char.ofNat (n + 48) else Char.ofNat (n + 87)

/-- A character inside double quotes: quotes, backslashes and control characters are escaped. -/
def quoteChar (c : Char) : List Char :=
  match c with
  | '"' => ['\\', '"']
  | '\\' => ['\\', '\\']
  | '\n' => ['\\', 'n']
  | '\r' => ['\\', 'r']
  | '\t' => ['\\', 't']
  | c =>
    if c.toNat == 8 then ['\\', 'b']
    else if c.toNat == 12 then ['\\', 'f']
    else if c.toNat < 32 then ['\\', 'u', '0', '0', hexDigit (c.toNat / 16), hexDigit (c.toNat % 16)]
    else [c]

def quote (s : String) : String := String.ofList ('"' :: s.toList.flatMap quoteChar ++ ['"'])

/-! ### Template literals -/

/-- Escapes a text for the inside of a template literal. -/
def escapeTemplateChars : List Char → List Char
  | [] => []
  | c :: cs =>
    if c == '\\' || c == '`' then '\\' :: c :: escapeTemplateChars cs
    else if c == '$' && cs.head? == some '{' then '\\' :: c :: escapeTemplateChars cs
    else c :: escapeTemplateChars cs

def escapeTemplate (s : String) : String := String.ofList (escapeTemplateChars s.toList)

end Polyview.Text
