import Polyview.Text.Charset
import Polyview.Text.Quoted

/-! # Escapes

Reading the escape sequences of strings and template literals. The result is a list of code points, in
which escapes may also have put halves of surrogate pairs. -/

namespace Polyview.Script

open Text

def hexValue? (c : Char) : Option Nat :=
  if isAsciiDigit c then some (c.toNat - 48)
  else if 'a' ≤ c && c ≤ 'f' then some (c.toNat - 87)
  else if 'A' ≤ c && c ≤ 'F' then some (c.toNat - 55)
  else none

def hexNumber? (digits : List Char) : Option Nat := digits.foldlM (fun n d => (hexValue? d).map fun v => 16 * n + v) 0

def octalValue? (c : Char) : Option Nat := if '0' ≤ c && c ≤ '7' then some (c.toNat - 48) else none

/-- What a letter behind a backslash stands for; most stand for themselves. -/
def simpleEscape (c : Char) : Nat :=
  match c with
  | 'n' => 10
  | 't' => 9
  | 'r' => 13
  | 'b' => 8
  | 'v' => 11
  | 'f' => 12
  | c => c.toNat

/-- Whether reading goes on inside `\u{...}`. -/
inductive EscapeMode
  | plain
  | braced (code : Nat)

/-- Code points read so far, and whether an octal escape is among them. -/
abbrev Cooked := List Nat × Bool

def Cooked.push (code : Nat) (rest : Option Cooked) : Option Cooked :=
  rest.map fun (codes, legacy) => (code :: codes, legacy)

def Cooked.pushLegacy (code : Nat) (rest : Option Cooked) : Option Cooked :=
  rest.map fun (codes, _) => (code :: codes, true)

/-- Reads the escapes of a text, if they are well formed. -/
def cook : EscapeMode → List Char → Option Cooked
  | .plain, [] => some ([], false)
  | .braced _, [] => none
  | .braced code, c :: cs =>
    if c == '\x7d' then Cooked.push code (cook .plain cs)
    else
      match hexValue? c with
      | some v => if 16 * code + v ≤ 0x10FFFF then cook (.braced (16 * code + v)) cs else none
      | none => none
  | .plain, c :: cs =>
    if c != '\\' then Cooked.push c.toNat (cook .plain cs)
    else
      match cs with
      | [] => none
      | 'u' :: '\x7b' :: d :: rest => if (hexValue? d).isSome then cook (.braced 0) (d :: rest) else none
      | 'u' :: d1 :: d2 :: d3 :: d4 :: rest =>
        match hexNumber? [d1, d2, d3, d4] with
        | some code => Cooked.push code (cook .plain rest)
        | none => none
      | 'x' :: d1 :: d2 :: rest =>
        match hexNumber? [d1, d2] with
        | some code => Cooked.push code (cook .plain rest)
        | none => none
      | '\r' :: '\n' :: rest => cook .plain rest
      | e :: rest =>
        if e == 'u' || e == 'x' then none
        else if e == '\n' || e == '\r' || e.toNat == 0x2028 || e.toNat == 0x2029 then cook .plain rest
        else
          match octalValue? e with
          | some d1 =>
            match rest with
            | [] => some ([d1], d1 != 0)
            | n2 :: rest2 =>
              match octalValue? n2 with
              | none =>
                if d1 == 0 && !isAsciiDigit n2 then Cooked.push 0 (cook .plain (n2 :: rest2))
                else Cooked.pushLegacy d1 (cook .plain (n2 :: rest2))
              | some d2 =>
                match rest2 with
                | [] => some ([8 * d1 + d2], true)
                | n3 :: rest3 =>
                  match octalValue? n3 with
                  | some d3 =>
                    if d1 ≤ 3 then Cooked.pushLegacy (64 * d1 + 8 * d2 + d3) (cook .plain rest3)
                    else Cooked.pushLegacy (8 * d1 + d2) (cook .plain (n3 :: rest3))
                  | none => Cooked.pushLegacy (8 * d1 + d2) (cook .plain (n3 :: rest3))
          | none =>
            if e == '8' || e == '9' then Cooked.pushLegacy e.toNat (cook .plain rest)
            else Cooked.push (simpleEscape e) (cook .plain rest)

/-! ### Surrogates -/

def isSurrogate (n : Nat) : Bool := 0xD800 ≤ n && n ≤ 0xDFFF

def joinSurrogates : List Nat → List Nat
  | [] => []
  | [n] => [n]
  | n :: m :: rest =>
    if 0xD800 ≤ n && n ≤ 0xDBFF && 0xDC00 ≤ m && m ≤ 0xDFFF then
      (0x10000 + (n - 0xD800) * 0x400 + (m - 0xDC00)) :: joinSurrogates rest
    else n :: joinSurrogates (m :: rest)

/-- A half of a surrogate pair that stands alone: the replacement character and four digits. -/
def loneSurrogate (n : Nat) : List Char :=
  [Char.ofNat 0xFFFD, hexDigit (n / 4096 % 16), hexDigit (n / 256 % 16), hexDigit (n / 16 % 16), hexDigit (n % 16)]

/-- The text of code points. Where halves of surrogate pairs stand alone, the replacement character
introduces their digits, and its own. -/
def textOfCodes (codes : List Nat) : String :=
  let codes := joinSurrogates codes
  let escaped := codes.any isSurrogate
  String.ofList (codes.flatMap fun n =>
    if isSurrogate n || (escaped && n == 0xFFFD) then loneSurrogate n else [Char.ofNat n])

end Polyview.Script
