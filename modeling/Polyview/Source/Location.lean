import Polyview.Text.Bytes

/-! # Locations in a source text

A location is a line and a column, both counted from one. Columns count characters. Both counts are kept in 32 bits. -/

namespace Polyview

/-- A line and a column of a text, both from one on. -/
structure Location where
  line : Nat
  column : Nat
deriving DecidableEq, Repr

/-- The next count, which starts anew behind the largest of 32 bits. -/
def nextCount (n : Nat) : Nat := (n + 1) % UInt32.size

def Location.advance (loc : Location) (c : Char) : Location :=
  if c == '\n' then ⟨nextCount loc.line, 1⟩ else ⟨loc.line, nextCount loc.column⟩

def Location.after (text : List Char) : Location := text.foldl Location.advance ⟨1, 1⟩

/-- The location of a byte offset. An offset behind the end of the text stands for its end; there is no
location inside a character. -/
def Location.ofOffset? (source : List Char) (offset : Nat) : Option Location :=
  (Text.splitBytes? (min offset (Text.byteLength source)) source).map fun (before, _) => Location.after before

end Polyview
