import Polyview.Error
import Polyview.Script.Tree

/-! # Snippets

Member bodies and template expressions are kept as text and read on demand. A snippet is put into a wrapper
that makes it a whole script; spans count from the start of the wrapped text. Whatever makes the wrapped
text a script is accepted. -/

namespace Polyview.Script

open Text

inductive SnippetKind
  | expression
  | statements
deriving DecidableEq, Repr

def SnippetKind.before : SnippetKind → List Char
  | .expression => ['(']
  | .statements => "async function __snippet__() \x7b\n".toList

def SnippetKind.after : SnippetKind → List Char
  | .expression => "\n);".toList
  | .statements => "\n\x7d".toList

/-- A snippet that has been read: the wrapped text, its tree, and the span of the snippet in it. -/
structure Snippet where
  text : List Char
  root : Node
  user : Span

def Snippet.parse? (code : String) (kind : SnippetKind) : Option Snippet :=
  let chars := code.toList
  let text := kind.before ++ chars ++ kind.after
  let start := byteLength kind.before
  (Script.parse? true text).map fun tree => ⟨text, tree.root, ⟨start, start + byteLength chars⟩⟩

/-- Reads a snippet, or tells that it cannot be parsed. -/
def Snippet.parse (code : String) (kind : SnippetKind) : Except Error Snippet :=
  match Snippet.parse? code kind with
  | some snippet => .ok snippet
  | none => .error (.parse (some (trim code)) none)

end Polyview.Script
