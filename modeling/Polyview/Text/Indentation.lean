import Polyview.Text.Blank
import Polyview.Text.Bytes
import Polyview.Text.Lines

/-! # Indentation

`dedent` removes blank lines at the edges and the indentation that all other lines share; `indent` puts
a fixed text in front of every line that is not blank. Indentation is any run of blank characters, and
its width is counted in bytes. -/

namespace Polyview.Text

/-- The number of bytes of blank characters in front of a line. -/
def indentWidth (line : List Char) : Nat := byteLength (line.takeWhile isBlank)

def dropBlankEdges (lines : List (List Char)) : List (List Char) :=
  ((lines.dropWhile isBlankChars).reverse.dropWhile isBlankChars).reverse

/-- The smallest indentation of a line that is not blank. -/
def commonIndent (lines : List (List Char)) : Nat :=
  (((lines.filter fun line => !isBlankChars line).map indentWidth).min?).getD 0

/-- Removes `width` bytes of indentation and the blank end of a line. A line that does not start with
that much indentation, or has no character boundary there, is trimmed. -/
def removeIndent (width : Nat) (line : List Char) : List Char :=
  match splitBytes? width line with
  | some (lead, rest) => if isBlankChars lead then trimEndChars rest else trimChars line
  | none => trimChars line

/-- The lines of a text without blank edge lines and common indentation. -/
def dedentLines (lines : List (List Char)) : List (List Char) :=
  let body := dropBlankEdges lines
  body.map (removeIndent (commonIndent body))

def dedent (text : String) : String := String.ofList (joinChars ['\n'] (dedentLines (linesOfChars text.toList)))

def indentLine (lead line : List Char) : List Char := if isBlankChars line then [] else lead ++ line

/-- Puts `lead` in front of every line that is not blank. -/
def indent (text lead : String) : String :=
  String.ofList (joinChars ['\n'] ((linesOfChars text.toList).map (indentLine lead.toList)))

def normalizeStyles (styles : String) : String :=
  let lines := (linesOfChars styles.toList).map trimChars
  String.ofList (joinChars [' '] (lines.filter fun line => !line.isEmpty))

end Polyview.Text
