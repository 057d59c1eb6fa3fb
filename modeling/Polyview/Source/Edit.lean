import Polyview.Source.Span

/-! # Edits

An edit replaces the text of a span. `splice` applies edits to a part of a source. The last edit goes
first, so that the offsets of the others stay valid; edits that reach outside of the part are left out. -/

namespace Polyview

/-- A span and the text that replaces it. -/
structure Edit where
  span : Span
  text : List Char
deriving DecidableEq, Repr

/-- Inserts an edit into a list in which later starts come first. -/
def insertEdit (edit : Edit) : List Edit → List Edit
  | [] => [edit]
  | first :: rest => if first.span.start ≤ edit.span.start then edit :: first :: rest else first :: insertEdit edit rest

/-- The edits with later starts first; edits with one start keep their order. -/
def sortEdits (edits : List Edit) : List Edit := edits.foldr insertEdit []

/-- Replaces the bytes from `start` to `stop`. Where these are no ends of characters, nothing changes. -/
def replaceBytes (start stop : Nat) (text source : List Char) : List Char :=
  match Text.splitBytes? start source with
  | some (before, rest) =>
    match Text.splitBytes? (stop - start) rest with
    | some (_, after) => before ++ text ++ after
    | none => source
  | none => source

def applyEdit (span : Span) (text : List Char) (edit : Edit) : List Char :=
  if edit.span.within span then
    replaceBytes (edit.span.start - span.start) (edit.span.stop - span.start) edit.text text
  else text

def splice (source : List Char) (span : Span) (edits : List Edit) : List Char :=
  (sortEdits edits).foldl (applyEdit span) (span.chars source)

end Polyview
