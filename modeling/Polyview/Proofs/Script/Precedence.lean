import Mathlib.Data.Nat.Notation
import Polyview.Script.Node

/-! # How tight expressions bind

Where an expression stands beside an operator without parentheses, it has to bind tighter than the operator.
`Shape.tightness` tells how tight the shapes of expressions bind, and `Shape.Groups` what that means for the parts of a
conditional, of an access, of an operator and of an arrow function. Binary operators differ in how tight they bind
(`symbolLevel`), and what stands on the right of one has to bind tighter (`bindsBehind`). An arrow function whose body is
an expression has another restriction, as a brace starts a block there: the expression does not start with the brace of
an object. -/

namespace Polyview.Script

/-- How tight expressions of a shape bind: expressions with commas, those that an assignment may be, operands with binary
operators, operands with prefix operators, and operands that an access or a call may follow. -/
def Shape.tightness : Shape → ℕ
  | .sequence => 0
  | .assign _ | .conditional | .arrow _ _ | .yield => 1
  | .binary _ | .logical _ | .asType | .satisfies => 2
  | .unary _ | .update _ _ | .await | .typeAssertion | .jsxElement | .jsxFragment | .chain => 3
  | _ => 4

/-- How tight the binary operators bind. -/
def symbolLevel : String → ℕ
  | "??" => 1
  | "||" => 2
  | "&&" => 3
  | "|" => 4
  | "^" => 5
  | "&" => 6
  | "==" | "!=" | "===" | "!==" => 7
  | "<<" | ">>" | ">>>" => 9
  | "+" | "-" => 10
  | "*" | "/" | "%" => 11
  | "**" => 12
  | _ => 8

/-- How tight expressions of a shape bind beside binary operators. -/
def Shape.level : Shape → ℕ
  | .binary symbol | .logical symbol => symbolLevel symbol
  | .asType | .satisfies => 8
  | shape => if 3 ≤ shape.tightness then 13 else 0

theorem Shape.level_eq {shape : Shape} (h : 3 ≤ shape.tightness) : shape.level = 13 := by
  cases shape <;> first | rfl | simp [Shape.tightness] at h

/-- Whether what binds as tight as `inner` is read as a whole behind an operator. Operators group to the left, except for
powers. -/
def bindsBehind (level inner : ℕ) : Bool := !if inner == 12 then decide (inner < level) else decide (inner ≤ level)

/-- Shapes of expressions that start with their first part. -/
def Shape.opensWithPart : Shape → Bool
  | .member _ _ | .privateMember _ _ | .index _ | .call _ | .tagged | .chain | .nonNull | .instantiation => true
  | .binary _ | .logical _ | .asType | .satisfies | .conditional | .sequence => true
  | _ => false

/-- Whether an expression starts with the brace of an object, or of an assignment to the properties of one. -/
def Node.leadsWithBrace : Node → Bool
  | .mk .object _ _ => true
  | .mk (.assign _) _ (.mk .objectPattern _ _ :: _) => true
  | .mk shape _ (first :: _) => shape.opensWithPart && first.leadsWithBrace
  | .mk _ _ [] => false

/-- An expression may be the body of an arrow function without parentheses. -/
structure FitsArrow (body : Node) : Prop where
  tight : 1 ≤ body.shape.tightness
  brace : body.leadsWithBrace = false

/-- Shapes of nodes whose parts have to bind tight: conditionals, accesses, operators, and arrow functions with an
expression for their bodies. -/
def Shape.isGrouped : Shape → Bool
  | .conditional => true
  | .member _ _ => true
  | .binary _ | .logical _ => true
  | .arrow _ true => true
  | _ => false

/-- What the shape of a node asks of its parts, so that they are read as they are grouped. -/
def Shape.Groups (shape : Shape) (parts : List Node) : Prop :=
  match shape with
  | .conditional => ∃ test rest, parts = test :: rest ∧ 2 ≤ test.shape.tightness
  | .member _ _ => ∃ object, parts = [object] ∧ 4 ≤ object.shape.tightness
  | .binary symbol | .logical symbol =>
    ∃ left right, parts = [left, right] ∧ bindsBehind (symbolLevel symbol) right.shape.level = true
  | .arrow _ true => ∃ front body, parts = front ++ [body] ∧ FitsArrow body
  | _ => True

section

variable {test object body left right : Node} {rest front : List Node}

@[grind =]
theorem groups_conditional : Shape.conditional.Groups (test :: rest) ↔ 2 ≤ test.shape.tightness := by
  simp [Shape.Groups]

@[grind =]
theorem groups_member {name : String} {optional : Bool} :
    (Shape.member name optional).Groups [object] ↔ 4 ≤ object.shape.tightness := by
  simp [Shape.Groups]

@[grind =]
theorem groups_binary {symbol : String} :
    (Shape.binary symbol).Groups [left, right] ↔ bindsBehind (symbolLevel symbol) right.shape.level = true :=
  ⟨fun ⟨_, _, heq, hb⟩ => by cases heq; exact hb, fun hb => ⟨left, right, rfl, hb⟩⟩

@[grind =]
theorem groups_logical {symbol : String} :
    (Shape.logical symbol).Groups [left, right] ↔ bindsBehind (symbolLevel symbol) right.shape.level = true :=
  ⟨fun ⟨_, _, heq, hb⟩ => by cases heq; exact hb, fun hb => ⟨left, right, rfl, hb⟩⟩

@[grind =]
theorem groups_arrow {isAsync : Bool} : (Shape.arrow isAsync true).Groups (front ++ [body]) ↔ FitsArrow body := by
  constructor
  · rintro ⟨front', body', heq, hf⟩
    obtain ⟨-, hl⟩ := List.append_inj' heq rfl
    cases hl
    exact hf
  · exact fun hf => ⟨front, body, rfl, hf⟩

end

end Polyview.Script
