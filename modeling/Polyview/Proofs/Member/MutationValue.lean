import Polyview.Backend.Lit
import Polyview.Backend.Svelte
import Polyview.Proofs.Member.Invalidate
import Polyview.Proofs.Member.Setter
import Polyview.Proofs.Script.TermReading
import Polyview.Proofs.Unit.Roles

/-! # Values of mutations that are told of

A mutation that is told of is put in front of a comma, with the notice behind it and parentheses around both. Where an
operand is read there, it is this comma expression: `notified_mutations` says so of mutations and notices that are
spelled as terms. So the mutation runs first and once, but the whole has the value of the notice, and the value of the
mutation is gone. Where an operand stands right in front, without a semicolon behind it, no operand is read there: the
parentheses are those of a call. -/

namespace Polyview

open List Script Node

variable {source : List Char} {cut : Span} {invalidationOf : String → Option String} {r : Resolver} {node root : Node}
  {notice : String}

/-! ### What is written -/

/-- What expressions about a stack can have for a value. -/
inductive StackValue
  | undefined
  | number (n : ℕ)
  | component
  | items
  | pop
deriving DecidableEq, Repr

/-- The member of a value. -/
def StackValue.get : StackValue → String → StackValue
  | .component, "items" => .items
  | .items, "pop" => .pop
  | _, _ => .undefined

/-- Takes the top off a stack. -/
def popStack : StateM (List ℕ) StackValue := fun
  | [] => (.undefined, [])
  | top :: rest => (.number top, rest)

mutual
/-- Runs an expression on a stack, whose top is the last of `items`. The array is one and the same throughout, so that an
assignment leaves it in place. -/
def runOnStack : Node → StateM (List ℕ) StackValue
  | .mk .paren _ parts | .mk .sequence _ parts | .mk (.assign .plain) _ parts => runInTurn parts
  | .mk .this _ _ => pure .component
  | .mk (.member name _) _ parts => (fun value => value.get name) <$> runInTurn parts
  | .mk (.call _) _ (callee :: _) =>
    runOnStack callee >>= fun value => if value = .pop then popStack else pure .undefined
  | _ => pure .undefined

/-- The last value of expressions in turn. -/
def runInTurn : List Node → StateM (List ℕ) StackValue
  | [] => pure .undefined
  | [node] => runOnStack node
  | node :: rest => runOnStack node >>= fun _ => runInTurn rest
end

/-- The number of statements of a text. -/
def statementCount (code : String) : Option ℕ :=
  ((Snippet.parse? code .statements).bind fun snippet => SnippetKind.statements.contents? snippet.root).map List.length

end Polyview
