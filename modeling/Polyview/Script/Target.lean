import Polyview.Script.Node

/-! # Targets of assignments

An assignment is read as an expression first. What stands on its left side then has to be a target: a
variable or property, or for `=` a literal whose elements are targets. Parentheses around a target are
dropped. -/

namespace Polyview.Script

/-- The target that an expression is by itself, without its parentheses. -/
def simpleTarget? : Node → Option Node
  | .mk .paren _ [inner] => simpleTarget? inner
  | .mk (.reference name) span parts => some (.mk (.reference name) span parts)
  | .mk (.member name false) span parts => some (.mk (.member name false) span parts)
  | .mk (.privateMember name false) span parts => some (.mk (.privateMember name false) span parts)
  | .mk (.index false) span parts => some (.mk (.index false) span parts)
  | .mk .asType span (inner :: rest) => (simpleTarget? inner).map fun _ => .mk .asType span (inner :: rest)
  | .mk .satisfies span (inner :: rest) => (simpleTarget? inner).map fun _ => .mk .satisfies span (inner :: rest)
  | .mk .nonNull span [inner] => (simpleTarget? inner).map fun _ => .mk .nonNull span [inner]
  | .mk .typeAssertion span [type, inner] => (simpleTarget? inner).map fun _ => .mk .typeAssertion span [type, inner]
  | _ => none

mutual
/-- The target that an expression is as a whole. -/
def target? : Node → Option Node
  | .mk .array span parts => (elementTargets? parts).map (.mk .arrayPattern span)
  | .mk .object span parts => (propertyTargets? parts).map (.mk .objectPattern span)
  | .mk .paren span parts => simpleTarget? (.mk .paren span parts)
  | .mk shape span parts => simpleTarget? (.mk shape span parts)

/-- The target that an element of a literal is; it may have a value to fall back to. -/
def elementTarget? : Node → Option Node
  | .mk (.assign .plain) span [target, value] => some (.mk .defaultPattern span [target, value])
  | .mk .array span parts => (elementTargets? parts).map (.mk .arrayPattern span)
  | .mk .object span parts => (propertyTargets? parts).map (.mk .objectPattern span)
  | .mk shape span parts => simpleTarget? (.mk shape span parts)

/-- The targets that the elements of an array are; only the last may collect the rest, without a comma. -/
def elementTargets? : List Node → Option (List Node)
  | [] => some []
  | [.mk (.spread false) span [inner]] => (target? inner).map fun target => [.mk .restPattern span [target]]
  | .mk .hole span parts :: rest => (elementTargets? rest).map fun targets => .mk .hole span parts :: targets
  | element :: rest =>
    match elementTarget? element, elementTargets? rest with
    | some target, some targets => some (target :: targets)
    | _, _ => none

/-- The targets that the properties of an object are; only the last may collect the rest, without a comma. -/
def propertyTargets? : List Node → Option (List Node)
  | [] => some []
  | [.mk (.spread false) span [inner]] => (simpleTarget? inner).map fun target => [.mk .restPattern span [target]]
  | .mk .property span [key, value] :: rest =>
    match elementTarget? value, propertyTargets? rest with
    | some target, some targets => some (.mk .patternProperty span [key, target] :: targets)
    | _, _ => none
  | .mk .shorthand span parts :: rest =>
    (propertyTargets? rest).map fun targets => .mk .patternShorthand span parts :: targets
  | .mk .shorthandDefault span parts :: rest =>
    (propertyTargets? rest).map fun targets => .mk .patternShorthand span [.mk .defaultPattern span parts] :: targets
  | _ => none
end

def assignTarget? (op : AssignOp) (node : Node) : Option Node :=
  match op with
  | .plain => target? node
  | _ => simpleTarget? node

end Polyview.Script
