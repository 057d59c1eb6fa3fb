import Polyview.Proofs.Member.Edits

/-! # Expressions as whole operands

An expression that is written into a script beside operators is read as it was meant only if it is read as a whole
operand there. `Node.holds` tells whether a tree has a certain expression in a certain role: as the test of a
conditional, as the receiver of a call, as the value of an arrow function, or on the right of a binary operator. In each
role, expressions have to bind tight. As the trees of all scripts are grouped so, an expression that binds too loose for
a role is in none of them a whole operand in this role. -/

namespace Polyview.Script

open Node

mutual
/-- Whether two trees are the same, wherever they stand. -/
def Node.alike : Node → Node → Bool
  | .mk shape _ parts, .mk shape' _ parts' => shape == shape' && alikeAll parts parts'

/-- Whether two lists of trees are the same, wherever they stand. -/
def Node.alikeAll : List Node → List Node → Bool
  | [], [] => true
  | node :: rest, node' :: rest' => node.alike node' && alikeAll rest rest'
  | _, _ => false
end

/-- The tree of an expression that stands alone. -/
def expression? (code : String) : Option Node :=
  ((Snippet.parse? code .expression).bind fun snippet => SnippetKind.expression.contents? snippet.root).bind List.head?

/-- The test of a conditional. -/
def Node.test? : Node → Option Node
  | .mk .conditional _ (test :: _) => some test
  | _ => none

/-- The receiver of a call of the given method. -/
def Node.receiver? (method : String) : Node → Option Node
  | .mk (.call _) _ (.mk (.member name _) _ [object] :: _) => if name = method then some object else none
  | _ => none

/-- The value of an arrow function whose body is an expression. -/
def Node.value? : Node → Option Node
  | .mk (.arrow _ true) _ parts => parts.getLast?
  | _ => none

/-- The right operand of the given operator. -/
def Node.rightOf? (op : String) : Node → Option Node
  | .mk (.binary symbol) _ [_, right] => if symbol = op then some right else none
  | _ => none

/-- Whether a tree has the given expression in the given role. -/
def Node.holds (root : Node) (role : Node → Option Node) (operand : Node) : Bool :=
  root.nodes.any fun node => (role node).any fun part => part.alike operand

/-- Some script that contains the text has the given expression as a whole in the given role. -/
def WholeIn (text : String) (role : Node → Option Node) (operand : Node) : Prop :=
  ∃ before after tree, parse? true (before ++ text.toList ++ after) = some tree ∧ tree.root.holds role operand = true

variable {root node operand part : Node} {source : List Char} {text : String}

/-! ### Trees that are the same -/

theorem shape_of_alike (h : node.alike operand) : node.shape = operand.shape := by
  rcases node with ⟨shape, span, parts⟩
  rcases operand with ⟨shape', span', parts'⟩
  rw [alike, Bool.and_eq_true, beq_iff_eq] at h
  exact h.1

theorem exists_first_of_alike {shape shape' : Shape} {span span' : Span} {parts rest' : List Node} {first' : Node}
    (h : (Node.mk shape span parts).alike (.mk shape' span' (first' :: rest'))) :
    ∃ first rest, parts = first :: rest ∧ first.alike first' := by
  rw [alike, Bool.and_eq_true] at h
  obtain ⟨-, ha⟩ := h
  cases parts with
  | nil => cases ha
  | cons first rest =>
    rw [Node.alikeAll, Bool.and_eq_true] at ha
    exact ⟨first, rest, rfl, ha.1⟩

theorem leadsWithBrace_of_alike (h : node.alike operand) (hb : operand.leadsWithBrace) :
    node.leadsWithBrace := by
  have hs := shape_of_alike h
  rcases node with ⟨shape, span, parts⟩
  fun_induction leadsWithBrace operand generalizing shape span parts with
  | case1 =>
    cases hs
    rw [leadsWithBrace]
  | case2 op =>
    cases hs
    obtain ⟨⟨shape, _, _⟩, rest, rfl, hf⟩ := exists_first_of_alike h
    obtain rfl : shape = .objectPattern := shape_of_alike hf
    rw [leadsWithBrace]
  | case3 shape' _ first' rest' _ _ ih =>
    cases hs
    obtain ⟨⟨shape, _, _⟩, rest, rfl, hf⟩ := exists_first_of_alike h
    rw [Bool.and_eq_true] at hb
    have hi := ih hb.2 _ _ _ hf (shape_of_alike hf)
    unfold leadsWithBrace
    split
    · rfl
    · rfl
    · next heq =>
      cases heq
      rw [hb.1, hi]
      rfl
    · next heq => cases heq
  | case4 => cases hb

/-! ### Roles -/

theorem tight_of_test? (h : node.Laid source) (ht : node.test? = some part) : 2 ≤ part.shape.tightness := by
  unfold test? at ht
  split at ht
  · cases ht
    rw [laid_mk_of_isFramed rfl, requires_of_isGrouped rfl, groups_conditional] at h
    exact h.2.2.2.1
  · cases ht

theorem tight_of_receiver? {method : String} (h : node.Laid source) (hr : node.receiver? method = some part) :
    4 ≤ part.shape.tightness := by
  unfold receiver? at hr
  split at hr
  · split at hr
    · cases hr
      have hc := h.row_parts.laid_of_mem (.head _)
      rw [laid_mk_of_isFramed rfl, requires_of_isGrouped rfl, groups_member] at hc
      exact hc.2.2.2.1
    · cases hr
  · cases hr

theorem fitsArrow_of_value? (h : node.Laid source) (hv : node.value? = some part) : FitsArrow part := by
  unfold value? at hv
  split at hv
  · obtain ⟨front, rfl⟩ := List.getLast?_eq_some_iff.mp hv
    rw [laid_mk_of_isFramed rfl, requires_of_isGrouped rfl, groups_arrow] at h
    exact h.2.2.2.1
  · cases hv

theorem binds_of_rightOf? {op : String} (h : node.Laid source) (hr : node.rightOf? op = some part) :
    bindsBehind (symbolLevel op) part.shape.level := by
  unfold rightOf? at hr
  split at hr
  · split at hr
    · next heq =>
      subst heq
      cases hr
      rw [laid_mk_of_isFramed rfl, requires_of_isGrouped rfl, groups_binary] at h
      exact h.2.2.2.1
    · cases hr
  · cases hr

/-! ### Scripts -/

theorem WholeIn.exists_part {role : Node → Option Node} (h : WholeIn text role operand) :
    ∃ source node part, node.Laid source ∧ role node = some part ∧ part.alike operand := by
  obtain ⟨before, after, tree, hpa, hh⟩ := h
  obtain ⟨node, hn, hr⟩ := List.any_eq_true.mp hh
  obtain ⟨part, hp, ha⟩ := (Option.any_eq_true _ _).mp hr
  exact ⟨_, node, part, (parse?_laid hpa).of_mem_nodes hn, hp, ha⟩

/-- The test of a conditional has no operator that binds as loose as the conditional itself. -/
theorem WholeIn.tight_test (h : WholeIn text test? operand) : 2 ≤ operand.shape.tightness := by
  obtain ⟨source, node, part, hl, ht, ha⟩ := h.exists_part
  rw [← shape_of_alike ha]
  exact tight_of_test? hl ht

/-- The receiver of a call is an operand without operators. -/
theorem WholeIn.tight_receiver {method : String} (h : WholeIn text (receiver? method) operand) :
    4 ≤ operand.shape.tightness := by
  obtain ⟨source, node, part, hl, hr, ha⟩ := h.exists_part
  rw [← shape_of_alike ha]
  exact tight_of_receiver? hl hr

/-- The right operand of an operator binds tighter than the operator. -/
theorem WholeIn.binds_right {op : String} (h : WholeIn text (rightOf? op) operand) :
    bindsBehind (symbolLevel op) operand.shape.level := by
  obtain ⟨source, node, part, hl, hr, ha⟩ := h.exists_part
  rw [← shape_of_alike ha]
  exact binds_of_rightOf? hl hr

/-- The value of an arrow function has no comma of its own and does not start with a brace. -/
theorem WholeIn.fitsArrow (h : WholeIn text value? operand) : FitsArrow operand := by
  obtain ⟨source, node, part, hl, hv, ha⟩ := h.exists_part
  have hf := fitsArrow_of_value? hl hv
  refine ⟨shape_of_alike ha ▸ hf.tight, Bool.eq_false_iff.mpr fun hb => ?_⟩
  exact Bool.eq_false_iff.mp hf.brace (leadsWithBrace_of_alike ha hb)

end Polyview.Script
