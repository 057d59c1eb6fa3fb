import Polyview.Script.Module
import Polyview.Text.Blank

/-! # Reading scripts

A script is read as a module. A byte order mark and a first line that starts with `#!` are skipped. The
script is refused if it does not follow the grammar, if it is flawed, or if a property such as `{ a = 1 }`
stands where no target of an assignment is. -/

namespace Polyview.Script

open Text

/-- A script as a tree, with the comments that are attached to tokens. -/
structure Tree where
  root : Node
  comments : List Comment

/-- The text of a script behind its marks, and the offset at which it starts. -/
def skipMarks (source : List Char) : Nat × List Char :=
  let (start, text) := match source with
    | c :: rest => if c.toNat == 0xFEFF then (c.utf8Size, rest) else (0, source)
    | [] => (0, source)
  match text with
  | '#' :: '!' :: _ =>
    let line := text.takeWhile fun c => !isLineBreak c
    (start + byteLength line, text.drop line.length)
  | _ => (start, text)

/-- Whether a property with a value stands where no target of an assignment is. -/
def hasStrayDefault (root : Node) : Bool := root.nodes.any fun node => node.shape == .shorthandDefault

/-- The number of rules that can be open at once while a text is read; blanks open none. -/
def nesting (source : List Char) : Nat := 12 * (ink source + 4)

/-- A number that no list of a script exceeds in length. Blanks alone are an item only between tags, where every
second item is no text. -/
def longest (source : List Char) : Nat := 2 * ink source + 2

/-- Reads a script; `jsx` tells whether markup is part of the language. -/
def parse? (jsx : Bool) (source : List Char) : Option Tree :=
  let (start, text) := skipMarks source
  let context : Context := { jsx, bound := longest source }
  match script (.level (nesting source)) context (.first start text) with
  | .ok (root, cursor) => if cursor.flawed || hasStrayDefault root then none else some ⟨root, cursor.comments.reverse⟩
  | .error _ => none

end Polyview.Script
