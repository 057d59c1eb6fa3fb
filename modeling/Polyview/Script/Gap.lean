import Polyview.Script.Token

/-! # Gaps between tokens

Blanks, line breaks and comments stand between tokens. A comment is attached to the token behind it unless
it trails the token before it: a line comment trails the token on its line, and so do the comments between
them; a block comment trails when a line break follows it on the line of the token before. Behind `=` and
`(` a line comment does not trail. -/

namespace Polyview.Script

def isLineBreak (c : Char) : Bool := c == '\n' || c == '\r' || c.toNat == 0x2028 || c.toNat == 0x2029

/-- The characters between tokens that do not end a line. -/
def isSpacing (c : Char) : Bool :=
  let n := c.toNat
  n == 0x20 || n == 9 || n == 11 || n == 12 || n == 0x85 || n == 0xA0 || n == 0x1680 ||
    (0x2000 ≤ n && n ≤ 0x200B) || n == 0x202F || n == 0x205F || n == 0x3000 || n == 0xFEFF

structure Gap where
  /-- Comments that do not trail, the latest first. -/
  pending : List Span := []
  /-- A line break, or the start of the text, lies between the last token and here. -/
  fresh : Bool := false
  /-- A line break lies in the gap, be it inside a comment. -/
  newline : Bool := false
  /-- A block comment is not closed. -/
  unclosed : Bool := false

def Gap.addNewline (gap : Gap) : Gap :=
  { gap with pending := if gap.fresh then gap.pending else [], fresh := true, newline := true }

/-- Adds a line comment; `opens` tells that the token before is `=` or `(`. -/
def Gap.addLine (opens : Bool) (gap : Gap) (span : Span) : Gap :=
  { gap with pending := if gap.fresh || opens then span :: gap.pending else [], fresh := true }

def Gap.addBlock (gap : Gap) (span : Span) : Gap := { gap with pending := span :: gap.pending }

inductive GapMode
  | blank
  | line (start : Nat)
  /-- Inside a block comment; `starred` tells that a star of its inside precedes. -/
  | block (start : Nat) (starred : Bool)

def skipGap (opens : Bool) : GapMode → Gap → Nat → List Char → Gap × Nat × List Char
  | .blank, gap, at_, [] => (gap, at_, [])
  | .line start, gap, at_, [] => (gap.addLine opens ⟨start, at_⟩, at_, [])
  | .block _ _, gap, at_, [] => ({ gap with unclosed := true }, at_, [])
  | .blank, gap, at_, c :: cs =>
    if isLineBreak c then skipGap opens .blank gap.addNewline (at_ + c.utf8Size) cs
    else if isSpacing c then skipGap opens .blank gap (at_ + c.utf8Size) cs
    else if c == '/' then
      match cs with
      | '/' :: rest => skipGap opens (.line at_) gap (at_ + 2) rest
      | '*' :: rest => skipGap opens (.block at_ false) gap (at_ + 2) rest
      | _ => (gap, at_, c :: cs)
    else (gap, at_, c :: cs)
  | .line start, gap, at_, c :: cs =>
    if isLineBreak c then
      skipGap opens .blank (gap.addLine opens ⟨start, at_⟩).addNewline (at_ + c.utf8Size) cs
    else skipGap opens (.line start) gap (at_ + c.utf8Size) cs
  | .block start starred, gap, at_, c :: cs =>
    if starred && c == '/' then skipGap opens .blank (gap.addBlock ⟨start, at_ + 1⟩) (at_ + 1) cs
    else if isLineBreak c then
      skipGap opens (.block start false) { gap with newline := true } (at_ + c.utf8Size) cs
    else skipGap opens (.block start (c == '*')) gap (at_ + c.utf8Size) cs

end Polyview.Script
