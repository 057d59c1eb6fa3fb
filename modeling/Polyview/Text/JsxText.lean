import Polyview.Text.Lines

/-! # Text between tags

Text written between tags may be broken into lines. Every line is stripped of spaces except at the two
ends of the text, lines with nothing left are dropped, and the others are joined by one space. Tabs count
as spaces. -/

namespace Polyview.Text

/-- A line that holds something else than spaces and tabs. -/
def hasInk (line : List Char) : Bool := line.any fun c => c != ' ' && c != '\t'

/-- The index of the last line with ink, and zero when there is none. -/
def lastInked (lines : List (List Char)) : Nat :=
  let rest := lines.reverse.dropWhile fun line => !hasInk line
  rest.length - 1

/-- A line with tabs as spaces, without leading spaces unless it is the first and without trailing spaces
unless it is the last. -/
def stripLine (isFirst isLast : Bool) (line : List Char) : List Char :=
  let spaced := line.map fun c => if c == '\t' then ' ' else c
  let started := if isFirst then spaced else spaced.dropWhile (· == ' ')
  if isLast then started else (started.reverse.dropWhile (· == ' ')).reverse

/-- Joins the lines from index `i` on, of `count` lines in all: a line with something left is followed by
a space unless it is the line `inked`. -/
def joinStripped (count inked : Nat) : Nat → List (List Char) → List Char
  | _, [] => []
  | i, line :: rest =>
    let kept := stripLine (i == 0) (i + 1 == count) line
    let tail := joinStripped count inked (i + 1) rest
    if kept.isEmpty then tail
    else if i == inked then kept ++ tail
    else kept ++ ' ' :: tail

def cleanJsxChars (raw : List Char) : List Char :=
  let lines := (splitNewlines raw).map fun line => (line.reverse.dropWhile (· == '\r')).reverse
  joinStripped lines.length (lastInked lines) 0 lines

/-- The text that remains of text between tags, if any does. -/
def cleanJsxText? (raw : String) : Option String :=
  let kept := cleanJsxChars raw.toList
  if kept.isEmpty then none else some (String.ofList kept)

end Polyview.Text
