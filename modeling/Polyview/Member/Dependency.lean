import Polyview.Component.Basic
import Polyview.Member.Update
import Polyview.Order

/-! # Dependencies

What a snippet reads. Members that are changed through a setter are not read by the change. Methods and
computed values are ordered so that each follows those it refers to. -/

namespace Polyview

open Script

/-- The names whose reads are dependencies. -/
structure ReactiveScope where
  members : List String := []
  stateful : List String := []
  /-- Variables, unless the snippet binds their name. -/
  free : List String := []

def ReactiveScope.changes (scope : ReactiveScope) (node : Node) : Bool :=
  match mutation? node with
  | some mutation => scope.stateful.contains mutation.member
  | none => false

/-- Whether the callee of a call is not read: it is a variable, or part of a change. -/
def ReactiveScope.skipsCallee (scope : ReactiveScope) (callee : Node) : Bool :=
  match callMutation? callee with
  | some mutation => scope.stateful.contains mutation.member
  | none => (callee.referenceName?).isSome

mutual
/-- The reads in a tree from left to right; `isBound` tells the names that the snippet binds. -/
def reads (scope : ReactiveScope) (isBound : String → Bool) : Node → List String
  | .mk (.reference name) _ _ => if scope.free.contains name && !isBound name then [name] else []
  | .mk (.member name _) _ [object] =>
    if isThis object then if scope.members.contains name then [name] else []
    else reads scope isBound object
  | .mk (.assign op) span [target, value] =>
    if scope.changes (.mk (.assign op) span [target, value]) then
      (match target with
        | .mk (.index _) _ [_, index] => reads scope isBound index
        | _ => []) ++ reads scope isBound value
    else reads scope isBound target ++ reads scope isBound value
  | .mk (.update increment before) span [target] =>
    if scope.changes (.mk (.update increment before) span [target]) then []
    else reads scope isBound target
  | .mk (.call _) _ [callee, arguments] =>
    if scope.skipsCallee callee then reads scope isBound arguments
    else reads scope isBound callee ++ reads scope isBound arguments
  | .mk (.call _) _ [callee, types, arguments] =>
    if scope.skipsCallee callee then reads scope isBound arguments
    else reads scope isBound callee ++ (reads scope isBound types ++ reads scope isBound arguments)
  | .mk _ _ parts => readsOf scope isBound parts

def readsOf (scope : ReactiveScope) (isBound : String → Bool) : List Node → List String
  | [] => []
  | node :: rest => reads scope isBound node ++ readsOf scope isBound rest
end

def firstOccurrences (seen : List String) : List String → List String
  | [] => []
  | name :: rest =>
    if seen.contains name then firstOccurrences seen rest
    else name :: firstOccurrences (name :: seen) rest

/-- What a snippet reads, each name once, in the order of first reads. -/
def inferDependencies (code : String) (kind : SnippetKind) (scope : ReactiveScope) :
    Except Error (List String) := do
  let snippet ← Snippet.parse code kind
  let bound := snippet.root.bindings
  return firstOccurrences [] (reads scope bound.contains snippet.root)

def referencedMembers (code : String) (kind : SnippetKind) (candidates : List String) : Except Error (List String) :=
  inferDependencies code kind { members := candidates }

/-! ### Order -/

def referencedIndices (kind : SnippetKind) (names : List String) (code : String) :
    Except Error (List Nat) := do
  let referenced ← referencedMembers code kind names
  return referenced.filterMap fun name => names.findIdx? (· == name)

/-- The order of named snippets in which each follows those it refers to. -/
def orderByReferences (kind : SnippetKind) (items : List (String × String)) :
    Except Error (List Nat) := do
  let deps ← items.mapM fun item => referencedIndices kind (items.map Prod.fst) item.2
  return Order.stableOrder deps

/-- The order of methods in which each follows those it calls. -/
def orderMethods (methods : List Method) : Except Error (List Nat) :=
  orderByReferences .statements (methods.map fun m => (m.name, m.body))

/-- The order of computed values in which each follows those it reads. -/
def orderComputed (computed : List ComputedField) : Except Error (List Nat) :=
  orderByReferences .expression (computed.map fun m => (m.name, m.expression))

end Polyview
