/-! # Lines

A text is cut at its newlines. The lines of a text leave out the empty rest after a last newline and
the carriage return in front of a newline. -/

namespace Polyview.Text

/-- The pieces between the separators, with the piece under construction in `piece`. -/
def splitFrom (isSeparator : Char → Bool) (piece : List Char) : List Char → List (List Char)
  | [] => [piece.reverse]
  | c :: cs =>
    if isSeparator c then piece.reverse :: splitFrom isSeparator [] cs
    else splitFrom isSeparator (c :: piece) cs

/-- The pieces between the newlines; there is one more piece than there are newlines. -/
def splitNewlines (cs : List Char) : List (List Char) := splitFrom (· == '\n') [] cs

/-- Drops one carriage return at the end. -/
def dropReturn (cs : List Char) : List Char :=
  match cs.reverse with
  | '\r' :: rest => rest.reverse
  | _ => cs

/-- The lines among the pieces of a text: every piece that a newline ends loses one carriage return,
and the last piece counts only when it is not empty. -/
def linesOfPieces : List (List Char) → List (List Char)
  | [] => []
  | [last] => if last.isEmpty then [] else [last]
  | piece :: rest => dropReturn piece :: linesOfPieces rest

def linesOfChars (cs : List Char) : List (List Char) := linesOfPieces (splitNewlines cs)

def joinChars (sep : List Char) (parts : List (List Char)) : List Char := sep.intercalate parts

def join (sep : String) (parts : List String) : String := sep.intercalate parts

end Polyview.Text
