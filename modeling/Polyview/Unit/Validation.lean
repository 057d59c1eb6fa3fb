import Polyview.Error
import Polyview.Unit.Member

/-! # Validation

The members of a component keep the rules of their roles. The rules are checked one after another, each for
all members in their order, and the first fault that is found is the error of the unit. -/

namespace Polyview

open Script

structure Fault where
  code : Code
  message : String
deriving DecidableEq, Repr

def Fault.error (fault : Fault) (m : ClassMember) : Error := .member fault.code m.name fault.message m.location

abbrev Check := ClassMember → Option Fault

/-! ### Rules -/

def MemberKind.problem? : MemberKind → Option String
  | .constructor => some "constructors are not supported; initialize members inline"
  | .accessorField => some "`accessor` fields are not supported"
  | .indexSignature => some "index signatures are not supported"
  | .setter => some "write accessors are not supported"
  | .staticBlock => some "static blocks are not supported"
  | .field => none
  | .getter => none
  | .method => none

/-- Members are fields, getters and methods of instances, with plain names. -/
def checkMemberKind : Check := fun m =>
  if m.isStatic then some ⟨.staticMember, "static members are not supported"⟩
  else
    match m.kind.problem? with
    | some problem => some ⟨.memberKind, problem⟩
    | none =>
      if m.hasPrivateName then
        some ⟨.memberKind, "#private names are not supported; use the `private` modifier"⟩
      else if m.hasComputedKey then some ⟨.memberKind, "computed member names are not supported"⟩
      else none

/-- A member has at most one marker, and a field or getter has one. -/
def checkMarkerCount : Check := fun m =>
  if m.markers.length > 1 then
    some ⟨.multipleMarkers, "carries more than one role marker (" ++
      Text.join ", " (m.markers.map fun marker => "@" ++ marker.name) ++ ")"⟩
  else if m.markers.isEmpty && (m.kind == .field || m.kind == .getter) then
    let hint := match m.otherDecorators with
      | other :: _ => " (`" ++ other ++ "` is not a role marker)"
      | [] => ""
    some ⟨.unmarkedMember, "data members and getters need exactly one role marker" ++ hint⟩
  else none

/-- A marker stands at the kind of member that it describes. -/
def checkMarkerKind : Check := fun m =>
  match m.marker? with
  | none => none
  | some marker =>
    if marker.isClassMarker then some ⟨.markerKind, "@" ++ marker.name ++ " is a class marker"⟩
    else if marker == .computed then
      if m.kind == .getter then none else some ⟨.markerKind, "@Computed applies to getters only"⟩
    else if m.kind == .field then none
    else if m.kind == .method then
      some ⟨.markerKind, "methods carry no role marker; found @" ++ marker.name⟩
    else some ⟨.markerKind, "@" ++ marker.name ++ " applies to fields only"⟩

def checkProp : Check := fun m =>
  if m.marker? != some .prop then none
  else if m.access != .publicAccess then some ⟨.propConstraint, "props must be public"⟩
  else if !m.isReadonly then some ⟨.propConstraint, "props must be readonly"⟩
  else none

/-- Whether a name is `on` followed by an upper-case letter. -/
def isEventName (name : String) : Bool :=
  match name.toList with
  | 'o' :: 'n' :: c :: _ => 'A' ≤ c && c ≤ 'Z'
  | _ => false

/-- Events are public and readonly, named as such, and initialized with an emitter. -/
def checkEvent : Check := fun m =>
  if m.marker? != some .event then none
  else if m.access != .publicAccess then some ⟨.eventConstraint, "events must be public"⟩
  else if !m.isReadonly then some ⟨.eventConstraint, "events must be readonly"⟩
  else if !isEventName m.name then
    some ⟨.eventConstraint, "event names start with `on` followed by an upper-case letter"⟩
  else if m.constructed != some "EventEmitter" then
    some ⟨.eventConstraint, "events must be initialized with `new EventEmitter<T>()`"⟩
  else none

/-- State, refs and injected members are not public; injected members are readonly. -/
def checkNonPublic : Check := fun m =>
  match m.marker? with
  | none => none
  | some marker =>
    if !(marker == .state || marker == .ref || marker == .inject) then none
    else if m.access == .publicAccess then
      some ⟨.visibility, "@" ++ marker.name ++ " members must be private or protected"⟩
    else if marker == .inject && !m.isReadonly then
      some ⟨.visibility, "injected members must be readonly"⟩
    else none

def checkComputedShape : Check := fun m =>
  if m.marker? != some .computed then none
  else if (m.function.bind FunctionParts.singleReturn).isSome then none
  else some ⟨.computedShape, "computed getters consist of a single `return <expression>;`"⟩

def memberChecks : List Check :=
  [checkMemberKind, checkMarkerCount, checkMarkerKind, checkProp, checkEvent, checkNonPublic, checkComputedShape]

/-! ### The render method -/

def renderName : String := "render"

def renderProblem? (parts : FunctionParts) : Option String :=
  if parts.paramCount > 0 then some "render() takes no parameters"
  else if parts.bareReturn then some "render() must return JSX; its return statement has no value"
  else if parts.singleReturn.isNone then
    some ("render() must consist of a single `return <jsx>;` statement, found " ++
      Nat.repr parts.statementCount ++ " statement(s)")
  else if !parts.returnsMarkup then some "render() must return a JSX element or fragment"
  else none

/-- A component has one render method, which returns markup. -/
def checkRender (component : String) (members : List ClassMember) : Except Error Unit :=
  match members.find? fun m => m.kind == .method && m.name == renderName with
  | none =>
    .error (.structural .missingRender
      ("component `" ++ component ++ "` has no " ++ renderName ++ "() method") none)
  | some render =>
    let problem := match render.function with
      | none => some "render() has no body"
      | some parts => renderProblem? parts
    match problem with
    | some problem => .error (.structural .malformedRender problem render.location)
    | none => .ok ()

/-! ### All rules -/

def firstFault? (check : Check) (members : List ClassMember) : Option Error :=
  members.findSome? fun m => (check m).map fun fault => fault.error m

def validateMembers (component : String) (members : List ClassMember) : Except Error Unit :=
  match memberChecks.findSome? fun check => firstFault? check members with
  | some error => .error error
  | none => checkRender component members

end Polyview
