import Polyview.Text.Lines

/-! # Imports

What a file imports from one module: a default binding, a binding of the whole module, and named
bindings. -/

namespace Polyview

/-- A named binding: the name in the module and the name it is bound to. -/
structure ImportedName where
  imported : String
  bound : String
  typeOnly : Bool
deriving DecidableEq, Repr

structure Import where
  source : String
  defaultName : Option String := none
  namespaceName : Option String := none
  named : List ImportedName := []
  typeOnly : Bool := false
deriving DecidableEq, Repr

def Import.isSideEffect (record : Import) : Bool :=
  record.defaultName.isNone && record.namespaceName.isNone && record.named.isEmpty

def Import.binds (record : Import) (name : String) : Bool :=
  record.defaultName == some name || record.namespaceName == some name ||
    record.named.any fun entry => entry.bound == name

/-- A named binding in an import clause. The mark `type` is left out where the whole clause has it. -/
def ImportedName.render (wholeTypeOnly : Bool) (entry : ImportedName) : String :=
  let mark := if entry.typeOnly && !wholeTypeOnly then "type " else ""
  if entry.imported == entry.bound then mark ++ entry.bound
  else mark ++ entry.imported ++ " as " ++ entry.bound

/-- The statements that import a record: one, or two if there are both named bindings and a binding of the
whole module, which cannot share a clause. -/
def Import.statements (record : Import) : List String :=
  let target := "\"" ++ record.source ++ "\""
  if record.isSideEffect then ["import " ++ target ++ ";"]
  else
    let keyword := if record.typeOnly then "import type " else "import "
    let statement (clause : List String) := keyword ++ Text.join ", " clause ++ " from " ++ target ++ ";"
    let first := record.defaultName.toList
    let names := record.named.map (ImportedName.render record.typeOnly)
    let clause := if record.named.isEmpty then first else first ++ ["\x7b " ++ Text.join ", " names ++ " \x7d"]
    match record.namespaceName with
    | none => [statement clause]
    | some whole =>
      if record.named.isEmpty then [statement (clause ++ ["* as " ++ whole])]
      else [statement clause, statement ["* as " ++ whole]]

end Polyview
