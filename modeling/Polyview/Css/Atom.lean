/-! # Atoms of a stylesheet

A stylesheet is read as a list of atoms. A string or a comment is one sealed atom, whose characters
mean nothing to the structure of the sheet; every other character stands for itself. A string or comment
that is not closed runs to the end of the sheet. -/

namespace Polyview.Css

inductive Atom
  /-- A character outside strings and comments. -/
  | sign (c : Char)
  /-- A string or a comment with its delimiters. -/
  | sealed (text : List Char)
deriving DecidableEq, Repr

def Atom.chars : Atom → List Char
  | .sign c => [c]
  | .sealed text => text

def textOf (atoms : List Atom) : List Char := atoms.flatMap Atom.chars

inductive Mode
  | plain
  /-- Inside a string closed by `quote`; `escaped` tells that a backslash precedes. -/
  | quoted (quote : Char) (escaped : Bool)
  /-- Inside a comment; `starred` tells that a star of its inside precedes. -/
  | comment (starred : Bool)

/-- Scans the rest of a stylesheet; `open'` holds the characters of the open string or comment, the latest
first. -/
def scan : Mode → List Char → List Char → List Atom
  | .plain, _, [] => []
  | .quoted _ _, open', [] => [.sealed open'.reverse]
  | .comment _, open', [] => [.sealed open'.reverse]
  | .plain, _, '/' :: '*' :: cs => scan (.comment false) ['*', '/'] cs
  | .plain, _, c :: cs => if c == '"' || c == '\'' then scan (.quoted c false) [c] cs else .sign c :: scan .plain [] cs
  | .quoted q true, open', c :: cs => scan (.quoted q false) (c :: open') cs
  | .quoted q false, open', c :: cs =>
    if c == '\\' then scan (.quoted q true) (c :: open') cs
    else if c == q then .sealed (c :: open').reverse :: scan .plain [] cs
    else scan (.quoted q false) (c :: open') cs
  | .comment starred, open', c :: cs =>
    if starred && c == '/' then .sealed (c :: open').reverse :: scan .plain [] cs
    else scan (.comment (c == '*')) (c :: open') cs

def atomsOf (css : List Char) : List Atom := scan .plain [] css

/-! ### Searching at the top level -/

def depthAfter (depth : Nat) (c : Char) : Nat :=
  if c == '(' || c == '[' || c == '{' then depth + 1
  else if c == ')' || c == ']' || c == '}' then depth - 1
  else depth

/-- Splits at the first of the characters `stops` outside brackets. -/
def splitTopLevel? (stops : List Char) : Nat → List Atom → Option (List Atom × Char × List Atom)
  | _, [] => none
  | depth, .sealed text :: rest =>
    (splitTopLevel? stops depth rest).map fun (before, c, after) => (.sealed text :: before, c, after)
  | depth, .sign c :: rest =>
    if depth == 0 && stops.contains c then some ([], c, rest)
    else
      (splitTopLevel? stops (depthAfter depth c) rest).map fun (before, d, after) => (.sign c :: before, d, after)

/-- Splits behind the brace that closes a block; `depth` counts the blocks open inside it. -/
def splitBlock? : Nat → List Atom → Option (List Atom × List Atom)
  | _, [] => none
  | depth, .sealed text :: rest => (splitBlock? depth rest).map fun (body, after) => (.sealed text :: body, after)
  | depth, .sign c :: rest =>
    if c == '}' then
      match depth with
      | 0 => some ([], rest)
      | inner + 1 => (splitBlock? inner rest).map fun (body, after) => (.sign c :: body, after)
    else
      (splitBlock? (if c == '{' then depth + 1 else depth) rest).map fun (body, after) => (.sign c :: body, after)

end Polyview.Css
