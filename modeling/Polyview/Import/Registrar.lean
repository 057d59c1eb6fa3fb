import Polyview.Import.Basic

/-! # The import registrar

The registrar collects what a file has to import. It keeps one record per module, in the order in which
modules are first registered, and in a record one entry per bound name, in the order of first
registration. -/

namespace Polyview

/-- The imports of a file, one record per module. -/
structure Registrar where
  modules : List Import := []
deriving DecidableEq, Repr, Inhabited

/-- Changes the record of a module by `f`, after adding it if there is none. A record is for types only as
long as all registrations are. -/
def updateModule (source : String) (typeOnly : Bool) (f : Import → Import) : List Import → List Import
  | [] => [f { source, typeOnly }]
  | record :: rest =>
    if record.source == source then f { record with typeOnly := record.typeOnly && typeOnly } :: rest
    else record :: updateModule source typeOnly f rest

/-- Adds a named binding. One that is already bound keeps its name in the module, and is for types only as
long as all registrations are. -/
def addNamed (entry : ImportedName) : List ImportedName → List ImportedName
  | [] => [entry]
  | known :: rest =>
    if known.bound == entry.bound then { known with typeOnly := known.typeOnly && entry.typeOnly } :: rest
    else known :: addNamed entry rest

namespace Registrar

def update (reg : Registrar) (source : String) (typeOnly : Bool) (f : Import → Import) : Registrar :=
  ⟨updateModule source typeOnly f reg.modules⟩

def add (reg : Registrar) (source : String) (entry : ImportedName) : Registrar :=
  reg.update source entry.typeOnly fun record => { record with named := addNamed entry record.named }

def named (reg : Registrar) (symbol source : String) : Registrar := reg.add source ⟨symbol, symbol, false⟩

def namedAs (reg : Registrar) (imported bound source : String) : Registrar := reg.add source ⟨imported, bound, false⟩

def typeNamed (reg : Registrar) (symbol source : String) : Registrar := reg.add source ⟨symbol, symbol, true⟩

/-- Registers a default binding; the first one of a module stays. -/
def defaultImport (reg : Registrar) (symbol source : String) : Registrar :=
  reg.update source false fun record => { record with defaultName := record.defaultName <|> some symbol }

/-- Registers a binding of a whole module; the first one of a module stays. -/
def wholeModule (reg : Registrar) (symbol source : String) : Registrar :=
  reg.update source false fun record => { record with namespaceName := record.namespaceName <|> some symbol }

def sideEffect (reg : Registrar) (source : String) : Registrar := reg.update source false id

/-- Registers the default binding of a record. A default binding for types only replaces the one before. -/
def registerDefault (reg : Registrar) (record : Import) : Registrar :=
  match record.defaultName with
  | none => reg
  | some symbol =>
    if record.typeOnly then
      reg.update record.source true fun known => { known with defaultName := some symbol }
    else reg.defaultImport symbol record.source

def registerWhole (reg : Registrar) (record : Import) : Registrar :=
  match record.namespaceName with
  | none => reg
  | some symbol =>
    reg.update record.source record.typeOnly fun known =>
      { known with namespaceName := known.namespaceName <|> some symbol }

def register (reg : Registrar) (record : Import) : Registrar :=
  if record.isSideEffect then reg.sideEffect record.source
  else
    record.named.foldl
      (fun reg entry => reg.add record.source { entry with typeOnly := record.typeOnly || entry.typeOnly })
      ((reg.registerDefault record).registerWhole record)

inductive Step
  | named (symbol source : String)
  | namedAs (imported bound source : String)
  | typeNamed (symbol source : String)
  | defaultImport (symbol source : String)
  | wholeModule (symbol source : String)
  | sideEffect (source : String)
  | register (record : Import)
deriving DecidableEq, Repr

def apply (reg : Registrar) : Step → Registrar
  | .named symbol source => reg.named symbol source
  | .namedAs imported bound source => reg.namedAs imported bound source
  | .typeNamed symbol source => reg.typeNamed symbol source
  | .defaultImport symbol source => reg.defaultImport symbol source
  | .wholeModule symbol source => reg.wholeModule symbol source
  | .sideEffect source => reg.sideEffect source
  | .register record => reg.register record

def isEmpty (reg : Registrar) : Bool := reg.modules.isEmpty

def statements (reg : Registrar) : List String := reg.modules.flatMap Import.statements

def render (reg : Registrar) : String := Text.join "\n" reg.statements

end Registrar

end Polyview
