import Polyview.Member.Resolve

/-! # Updating members

Code changes members in place. Where a framework watches only certain changes, the code is put into a form
that it does watch: calls of setters, or the change followed by a notification. Recognized are assignments
and updates of a member or of something below it, and calls of methods that change an array. -/

namespace Polyview

open Script Text

def mutatingMethods : List String :=
  ["push", "pop", "shift", "unshift", "splice", "sort", "reverse", "fill", "copyWithin"]

inductive UpdateStyle
  /-- Calls of setters; members without a setter are changed in place. -/
  | setter (setterOf : String → Option String)
  /-- Changes in place, followed by an expression that tells of the change. -/
  | invalidate (invalidationOf : String → Option String)

/-! ### Mutations -/

inductive Mutation
  | whole (member : String) (op : AssignOp)
  | nested (member property : String) (op : AssignOp)
  /-- Something further below the member is assigned. -/
  | deep (member : String)
  /-- Something below the member is changed by a call or at an index. -/
  | inPlace (member : String)
deriving DecidableEq, Repr

def Mutation.member : Mutation → String
  | .whole member _ => member
  | .nested member _ _ => member
  | .deep member => member
  | .inPlace member => member

def targetMutation? (op : AssignOp) : Node → Option Mutation
  | .mk (.member name _) _ [object] =>
    if isThis object then some (.whole name op)
    else
      match thisMember? object with
      | some member => some (.nested member name op)
      | none => (rootMember? object).map .deep
  | .mk (.index _) _ [object, _] => (rootMember? object).map .inPlace
  | _ => none

def callMutation? : Node → Option Mutation
  | .mk (.member name _) _ [object] => if mutatingMethods.contains name then (rootMember? object).map .inPlace else none
  | _ => none

def mutation? : Node → Option Mutation
  | .mk (.assign op) _ [target, _] => targetMutation? op target
  | .mk (.update increment _) _ [target] => targetMutation? (.binary (if increment then "+" else "-")) target
  | .mk (.call _) _ (callee :: _) => callMutation? callee
  | _ => none

/-! ### Parameters of updaters -/

def isNameChar (c : Char) : Bool := isAlphanumeric c || c == '_' || c == '$'

/-- Whether a name occurs in a text apart from longer names. Occurrences are looked for from left to right
without overlaps; `before` is the character in front, and `skip` more belong to an occurrence. -/
def mentionsFrom (name : List Char) : (before : Option Char) → (skip : Nat) → List Char → Bool
  | _, _, [] => false
  | _, skip + 1, c :: cs => mentionsFrom name (some c) skip cs
  | before, 0, c :: cs =>
    if name.isPrefixOf (c :: cs) then
      (!(before.map isNameChar).getD false && !(((c :: cs).drop name.length).head?.map isNameChar).getD false)
        || mentionsFrom name (some c) (name.length - 1) cs
    else mentionsFrom name (some c) 0 cs

def mentions (text name : List Char) : Bool := mentionsFrom name none 0 text

/-- Lengthens a name until it is neither referred to nor mentioned, by at most `n` characters. -/
def freshName (referenced : List String) (rendered : List Char) : Nat → List Char → List Char
  | 0, name => name
  | n + 1, name =>
    if referenced.contains (String.ofList name) || mentions rendered name then
      freshName referenced rendered n (name ++ ['_'])
    else name

/-- The parameter of an updater: the member's name unless the update refers to a variable of that name. -/
def updaterParam (member : String) (referenced : List String) (rendered : List Char) : String :=
  if referenced.contains member then
    let name := "prev".toList ++ capitalizeChars member.toList
    String.ofList (freshName referenced rendered (referenced.length + rendered.length + 1) name)
  else member

/-! ### Errors -/

def logicalError (member : String) : Error :=
  .unsupported .mutation
    ("logical assignment to `this." ++ member ++ "` has no functional-update form; use an explicit condition") none

def deepError (member : String) : Error :=
  .unsupported .mutation
    ("assignment more than one property below `this." ++ member ++
      "`; replace the whole value or mutate one level down") none

def shadowError (member : String) : Error :=
  .unsupported .mutation
    ("in-place update of `this." ++ member ++ "` also reads a local named `" ++ member ++ "`; rename the local") none

/-! ### Replacements -/

/-- What stands for a mutation. -/
inductive Replacement
  /-- The mutation stays, and its parts are looked at. -/
  | keep
  /-- Nothing can stand for it. -/
  | fail (error : Error)
  /-- A text around the assigned value. -/
  | ofValue (render : List Char → Except Error String)
  /-- A text around the whole mutation. -/
  | ofAll (render : List Char → String)

/-- The call of a setter that stands for a mutation; `referenced` are the names that it refers to. -/
def setterCall (setter : String) (referenced : List String) : Mutation → Replacement
  | .whole _ .plain => .ofValue fun value => .ok (setter ++ "(" ++ String.ofList value ++ ")")
  | .whole member (.binary symbol) => .ofValue fun value =>
    let prev := updaterParam member referenced value
    .ok (setter ++ "(" ++ prev ++ " => " ++ prev ++ " " ++ symbol ++ " " ++ String.ofList value ++ ")")
  | .whole member (.logical _) => .fail (logicalError member)
  | .nested member property op => .ofValue fun value =>
    let prev := updaterParam member referenced value
    let call (updated : String) : Except Error String :=
      .ok (setter ++ "(" ++ prev ++ " => (\x7b ..." ++ prev ++ ", " ++ property ++ ": " ++ updated ++ " \x7d))")
    match op with
    | .plain => call (String.ofList value)
    | .binary symbol => call (prev ++ "." ++ property ++ " " ++ symbol ++ " " ++ String.ofList value)
    | .logical _ => .error (logicalError member)
  | .deep member => .fail (deepError member)
  | .inPlace member =>
    if referenced.contains member then .fail (shadowError member)
    else .ofAll fun all =>
      setter ++ "(" ++ member ++ " => \x7b " ++ String.ofList all ++ "; return " ++ member ++ "; \x7d)"

/-- What a style puts in the place of a node, unless the node is no mutation. -/
def UpdateStyle.replacement (style : UpdateStyle) (node : Node) : Replacement :=
  match mutation? node with
  | none => .keep
  | some mutation =>
    match style with
    | .setter setterOf =>
      match setterOf mutation.member with
      | some name => setterCall name ((Node.nodesOf node.parts).filterMap Node.referenceName?) mutation
      | none => .keep
    | .invalidate invalidationOf =>
      match mutation with
      | .whole .. => .keep
      | mutation =>
        match invalidationOf mutation.member with
        | some invalidation => .ofAll fun all => "(" ++ String.ofList all ++ ", " ++ invalidation ++ ")"
        | none => .keep

/-- Whether member reads inside of a replacement are resolved at once. -/
def UpdateStyle.resolvesReads : UpdateStyle → Bool
  | .setter _ => true
  | .invalidate _ => false

section

variable (source : List Char) (style : UpdateStyle) (r : Resolver)

abbrev Edits := Except Error (List Edit)

mutual
/-- The edits that bring the mutations in a tree into the style; `resolving` tells that member reads are
resolved as well. -/
def updateEdits (resolving : Bool) : Node → Edits
  | .mk (.assign op) span [target, value] =>
    match style.replacement (.mk (.assign op) span [target, value]) with
    | .keep => do return (← updateEdits resolving target) ++ (← updateEdits resolving value)
    | .fail error => .error error
    | .ofValue render => do
      let edits ← updateEdits style.resolvesReads value
      return [.of span (← render (splice source value.span edits))]
    | .ofAll render => do
      let edits ← updateEdits style.resolvesReads target
      let edits := edits ++ (← updateEdits style.resolvesReads value)
      return [.of span (render (splice source span edits))]
  | .mk (.update increment before) span [target] =>
    match style.replacement (.mk (.update increment before) span [target]) with
    | .keep => updateEdits resolving target
    | .fail error => .error error
    | .ofValue render => do return [.of span (← render ['1'])]
    | .ofAll render => do
      let edits ← updateEdits style.resolvesReads target
      return [.of span (render (splice source span edits))]
  | .mk (.call optional) span (callee :: rest) =>
    match style.replacement (.mk (.call optional) span (callee :: rest)) with
    | .fail error => .error error
    | .ofAll render => do
      let edits ← updateEdits style.resolvesReads callee
      let edits := edits ++ (← updateEditsOf style.resolvesReads rest)
      return [.of span (render (splice source span edits))]
    | _ => do
      let emitted ← match if resolving then emitter? callee else none with
        | some member => do
          let edits ← argumentUpdates resolving rest
          pure (r.emit member (renderArguments source (argumentsOf rest) edits))
        | none => pure none
      match emitted with
      | some text => return [.of span text]
      | none => return (← updateEdits resolving callee) ++ (← updateEditsOf resolving rest)
  | .mk shape span parts =>
    match if resolving then (thisMember? (.mk shape span parts)).bind r.read else none with
    | some text => .ok [.of span text]
    | none => updateEditsOf resolving parts

def updateEditsOf (resolving : Bool) : List Node → Edits
  | [] => .ok []
  | node :: rest => do return (← updateEdits resolving node) ++ (← updateEditsOf resolving rest)

/-- The edits that bring the mutations in the arguments of a call into the style, given its parts behind
the callee. -/
def argumentUpdates (resolving : Bool) : List Node → Edits
  | [] => .ok []
  | .mk .arguments _ parts :: _ => updateEditsOf resolving parts
  | _ :: rest => argumentUpdates resolving rest
end

end

/-- Brings the mutations in a snippet into a style. Member reads outside of replacements stay as they
are. -/
def updateMembers (code : String) (kind : SnippetKind) (style : UpdateStyle) (r : Resolver) :
    Except Error String := do
  let snippet ← Snippet.parse code kind
  let edits ← updateEdits snippet.text style r false snippet.root
  return String.ofList (splice snippet.text snippet.user edits)

/-- Brings the mutations in a snippet into a style and resolves all members. -/
def adaptCode (code : String) (kind : SnippetKind) (style : UpdateStyle) (r : Resolver) :
    Except Error String := do
  resolveMembers (← updateMembers code kind style r) kind r

end Polyview
