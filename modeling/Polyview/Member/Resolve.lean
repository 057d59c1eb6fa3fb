import Polyview.Script.Snippet
import Polyview.Source.Edit

/-! # Resolving members

Code refers to members as `this.member`. A resolver says what to write instead, for reads and for emitted
events; the rest of the code stays as it is. -/

namespace Polyview

open Script

structure Resolver where
  /-- What stands for a read of a member, if anything else does. -/
  read : String → Option String
  /-- What stands for emitting an event with the given arguments, if anything else does. -/
  emit : String → String → Option String := fun _ _ => none

def Resolver.unresolved : Resolver where
  read _ := none

/-! ### Shapes of access -/

def isThis (node : Node) : Bool := node.shape == .this

def thisMember? : Node → Option String
  | .mk (.member name _) _ [object] => if isThis object then some name else none
  | _ => none

/-- The member of `this` that a chain of accesses starts from. -/
def rootMember? : Node → Option String
  | .mk (.member name _) _ [object] => if isThis object then some name else rootMember? object
  | .mk (.index _) _ [object, _] => rootMember? object
  | _ => none

/-- The member whose event the call of a callee emits, as in `this.member.emit`. -/
def emitter? : Node → Option String
  | .mk (.member name _) _ [object] => if name == "emit" then thisMember? object else none
  | _ => none

def spanOf? (nodes : List Node) : Option Span :=
  match nodes.head?, nodes.getLast? with
  | some first, some last => some ⟨first.span.start, last.span.stop⟩
  | _, _ => none

def renderArguments (source : List Char) (nodes : List Node) (edits : List Edit) : String :=
  match spanOf? nodes with
  | some span => String.ofList (splice source span edits)
  | none => ""

/-! ### Edits -/

def Edit.of (span : Span) (text : String) : Edit := ⟨span, text.toList⟩

mutual
/-- The edits that resolve the members in a tree. What is replaced as a whole has no edits inside. -/
def memberEdits (source : List Char) (r : Resolver) : Node → List Edit
  | .mk _ _ [] => []
  | .mk shape span (head :: rest) =>
    match (thisMember? (.mk shape span (head :: rest))).bind r.read with
    | some text => [.of span text]
    | none =>
      match shape, emitter? head with
      | .call _, some member =>
        match r.emit member (renderArguments source (argumentsOf rest) (argumentEdits source r rest)) with
        | some text => [.of span text]
        | none => memberEdits source r head ++ memberEditsOf source r rest
      | _, _ => memberEdits source r head ++ memberEditsOf source r rest

def memberEditsOf (source : List Char) (r : Resolver) : List Node → List Edit
  | [] => []
  | node :: rest => memberEdits source r node ++ memberEditsOf source r rest

/-- The edits that resolve the members in the arguments of a call, given its parts behind the callee. -/
def argumentEdits (source : List Char) (r : Resolver) : List Node → List Edit
  | [] => []
  | .mk .arguments _ parts :: _ => memberEditsOf source r parts
  | _ :: rest => argumentEdits source r rest
end

def resolveMembers (code : String) (kind : SnippetKind) (r : Resolver) : Except Error String := do
  let snippet ← Snippet.parse code kind
  return String.ofList (splice snippet.text snippet.user (memberEdits snippet.text r snippet.root))

end Polyview
