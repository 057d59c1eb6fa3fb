import Polyview.Pipeline.Draft
import Polyview.Text.Indentation

/-! # Layout

What the written files have in common: blocks of code, type annotations, comments and attribute lists. -/

namespace Polyview

open Text

def braces (text : String) : String := "\x7b" ++ text ++ "\x7d"

/-- A block of code in braces, indented and on lines of its own. -/
def codeBlock (body : String) : String := braces ("\n" ++ indent body "  " ++ "\n")

def typed : Option String → String
  | some type => ": " ++ type
  | none => ""

def typeArgument : Option String → String
  | some type => "<" ++ type ++ ">"
  | none => ""

def nullableArgument : Option String → String
  | some type => "<" ++ type ++ " | null>"
  | none => ""

def asyncMark (isAsync : Bool) : String := if isAsync then "async " else ""

/-- A function that runs a body at once if it is asynchronous; other bodies stay. -/
def runAsync (isAsync : Bool) (body : String) : String :=
  if isAsync then "(async () => " ++ codeBlock body ++ ")();" else body

def withComments (comments : List String) (code : String) : String :=
  if comments.isEmpty then code else join "\n" comments ++ "\n" ++ code

def attributeList (attributes : List String) : String := String.join (attributes.map fun a => " " ++ a)

def elementText (tag : String) (attributes children : List String) : String :=
  "<" ++ tag ++ attributeList attributes ++ ">" ++ String.join children ++ "</" ++ tag ++ ">"

def selfClosingText (tag : String) (attributes : List String) : String :=
  "<" ++ tag ++ attributeList attributes ++ " />"

/-- The type of a prop: its annotation, or else that of its default value. -/
def propType (m : PropField) : String :=
  match m.typeText, m.defaultValue with
  | some type, _ => type
  | none, some value => (literalType value).name
  | none, none => "unknown"

def propField (m : PropField) : String :=
  withComments m.comments (m.name ++ (if m.optional then "?" else "") ++ ": " ++ propType m ++ ";")

/-- The imports of a file and the type declarations, where there are any. -/
def preamble (imports : Registrar) (declarations : List String) : List String :=
  (if imports.isEmpty then [] else [imports.render]) ++ if declarations.isEmpty then [] else [join "\n\n" declarations]

def fileOf (sections : List String) : String := join "\n\n" sections ++ "\n"

/-- A file that holds the class of a provider, behind its imports. -/
def providerFile (imports : Registrar) (provider : ProviderClass) (rest : List String) : String :=
  fileOf (preamble imports provider.declarations ++ provider.source :: rest)

end Polyview
