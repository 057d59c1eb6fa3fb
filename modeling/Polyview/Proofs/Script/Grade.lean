import Polyview.Proofs.Script.Reading.Basic
import Polyview.Proofs.Script.Reading.Target
import Polyview.Script.Module

/-! # How tight the rules read

The rules for expressions are nested by precedence. What a rule returns binds as tight as its place in the nesting tells,
and starts with the brace of an object only if the rule starts at one. -/

namespace Polyview.Script

variable {allowReturn isAsync : Bool} {left : Node} {shape : Shape} {span : Span} {tightness : ℕ} {level : ℕ}

/-- A tree that was read from a cursor binds at least as tight as given, and starts with a brace only if the cursor stands
at one. -/
structure Grade (tightness : ℕ) (c : Cursor) (node : Node) : Prop where
  tight : tightness ≤ node.shape.tightness
  brace : node.leadsWithBrace = true → c.token.kind = .punct .lbrace

/-- A rule reads trees that bind at least as tight as given. -/
def Grades (tightness : ℕ) (rule : Parse Node) : Prop :=
  ∀ ⦃context : Context⦄ ⦃c : Cursor⦄ ⦃node : Node⦄ ⦃c' : Cursor⦄, Runs rule context c node c' → Grade tightness c node

/-- A rule reads trees that stand as wholes behind operators of a level. -/
def ReadsBehind (level : ℕ) (rule : Parse Node) : Prop :=
  ∀ ⦃context : Context⦄ ⦃c : Cursor⦄ ⦃node : Node⦄ ⦃c' : Cursor⦄, Runs rule context c node c' →
    bindsBehind level node.shape.level = true

/-- The rules of a grammar read trees that bind as tight as the nesting of the rules tells. -/
class Grammar.Graded (g : Grammar) : Prop where
  assignment : ∀ allowReturn, Grades 1 (g.assignment allowReturn)
  binary : ∀ level, Grades 2 (g.binary level)
  behind : ∀ level ≤ 12, ReadsBehind level (g.binary level)
  unary : Grades 3 g.unary
  leftHandSide : Grades 3 g.leftHandSide
  markup : ∀ betweenTags, Grades 3 (g.markup betweenTags)

variable {g : Grammar} {context : Context} {c c' : Cursor} {node : Node} {start : ℕ}

theorem Grade.mono {tight loose : ℕ} (h : Grade tight c node) (hl : loose ≤ tight) : Grade loose c node :=
  ⟨Nat.le_trans hl h.tight, h.brace⟩

/-- Shapes of expressions that may start with a brace. -/
def Shape.mayLeadWithBrace : Shape → Bool
  | .object | .assign _ => true
  | shape => shape.opensWithPart

theorem grade_of_shape (h : node.shape = shape) (ht : tightness ≤ shape.tightness)
    (hs : shape.mayLeadWithBrace = false) : Grade tightness c node := by
  subst h
  refine ⟨ht, fun hb => ?_⟩
  have ho : node.shape.opensWithPart = false := by
    unfold Shape.mayLeadWithBrace at hs
    split at hs
    · cases hs
    · cases hs
    · exact hs
  unfold Node.leadsWithBrace at hb
  split at hb
  · cases hs
  · cases hs
  · rw [Node.shape] at ho
    rw [ho] at hb
    cases hb
  · cases hb

/-- A tree that starts with its first part starts as that does. -/
theorem Grade.of_first {inner : ℕ} {first : Node} {rest : List Node} (h : Grade inner c first)
    (ht : tightness ≤ shape.tightness) (ho : shape.opensWithPart) :
    Grade tightness c (.mk shape span (first :: rest)) := by
  refine ⟨ht, fun hb => ?_⟩
  unfold Node.leadsWithBrace at hb
  split at hb
  · next heq =>
    cases heq
    cases ho
  · next heq =>
    cases heq
    cases ho
  · next heq =>
    cases heq
    exact h.brace (Bool.and_eq_true_iff.mp hb).2
  · next heq => cases heq

/-! ### Operands -/

theorem shape_of_functionWithName {form : FunctionForm} {nameless : Bool}
    (h : Runs (functionWithName g start form isAsync nameless) context c node c') :
    ∃ isGenerator isDeclared, node.shape = .functionNode form isAsync isGenerator isDeclared := by
  unfold functionWithName functionRest at h
  grind [Node.shape]

theorem shape_of_classRest {isDeclaration : Bool} {mods : Modifiers} {marks : List Node}
    (h : Runs (classRest g start isDeclaration mods marks) context c node c') :
    ∃ mods, node.shape = .classNode isDeclaration mods := by
  unfold classRest at h
  grind [Node.shape]

theorem shape_of_newExpression (h : Runs (newExpression g) context c node c') :
    node.shape = .construct ∨ node.shape = .newTarget := by
  unfold newExpression at h
  grind [Node.shape]

theorem shape_of_importCall (h : Runs (importCall g start) context c node c') : node.shape = .importCall := by
  unfold importCall at h
  grind [Node.shape]

theorem shape_of_importMember (h : Runs (importMember g start) context c node c') :
    node.shape = .importCall ∨ node.shape = .importMeta := by
  rw [importMember, runs_keyword?_bind] at h
  split at h
  · grind [Node.shape]
  · exact Or.inl (shape_of_importCall (runs_next_bind.mp h))
  · exact Or.inl (shape_of_importCall (runs_next_bind.mp h))
  · grind

theorem shape_of_importExpression (h : Runs (importExpression g) context c node c') :
    node.shape = .importCall ∨ node.shape = .importMeta := by
  simp only [importExpression, runs_bind, runs_ite] at h
  obtain ⟨start, c₁, -, _, c₂, -, isMember, c₃, -, h⟩ := h
  split at h
  · exact shape_of_importMember h
  · exact Or.inl (shape_of_importCall h)

theorem shape_of_templateWith {part : Parse Node} {tagged : Bool}
    (h : Runs (templateWith part shape tagged) context c node c') : node.shape = shape := by
  unfold templateWith at h
  grind [Node.shape]

theorem grade_leaf (h : Runs (leaf shape) context c node c') (ht : tightness ≤ shape.tightness)
    (hs : shape.mayLeadWithBrace = false) : Grade tightness c node := by
  obtain ⟨-, rfl⟩ := runs_leaf.mp h
  exact grade_of_shape rfl ht hs

theorem grade_reference (h : Runs reference context c node c') : Grade 4 c node := by
  simp only [reference, runs_bind, runs_finish] at h
  obtain ⟨_, _, -, name, _, -, -, rfl⟩ := h
  exact grade_of_shape rfl (Nat.le_refl 4) rfl

theorem shape_of_regexLiteral (h : Runs regexLiteral context c node c') : node.shape = .regex := by
  simp only [regexLiteral, runs_bind, runs_modify, runs_tokenKind] at h
  obtain ⟨_, c₁, -, kind, c₂, -, h⟩ := h
  split at h
  · obtain ⟨-, rfl⟩ := runs_leaf.mp h
    rfl
  · cases h

theorem shape_of_decoratedClass (h : Runs (decoratedClass g) context c node c') :
    ∃ mods, node.shape = .classNode false mods := by
  simp only [decoratedClass, runs_bind] at h
  obtain ⟨start, _, -, marks, _, -, mods, _, -, h⟩ := h
  exact shape_of_classRest h

/-- What is read as an operand may be followed by an access or a call. -/
theorem grades_primary : Grades 4 (primary g) := by
  intro _ c _ _ h
  rw [primary, runs_startOffset_bind, runs_tokenKind_bind] at h
  split at h
  case h_1 | h_2 | h_3 | h_11 | h_13 | h_14 | h_15 => exact grade_leaf h (Nat.le_refl 4) rfl
  case h_4 => exact grade_of_shape (shape_of_templateWith h) (Nat.le_refl 4) rfl
  case h_5 =>
    simp only [parenthesized, runs_bind, runs_finish] at h
    obtain ⟨_, _, -, _, _, -, inner, _, -, _, _, -, -, rfl⟩ := h
    exact grade_of_shape rfl (Nat.le_refl 4) rfl
  case h_6 =>
    simp only [arrayLiteral, runs_bind, runs_finish] at h
    obtain ⟨_, _, -, _, _, -, parts, _, -, _, _, -, -, rfl⟩ := h
    exact grade_of_shape rfl (Nat.le_refl 4) rfl
  case h_7 hb =>
    simp only [objectLiteral, runs_bind, runs_finish] at h
    obtain ⟨_, _, -, _, _, -, parts, _, -, _, _, -, -, rfl⟩ := h
    exact ⟨Nat.le_refl 4, fun _ => hb⟩
  case h_8 | h_9 => exact grade_of_shape (shape_of_regexLiteral h) (Nat.le_refl 4) rfl
  case h_10 =>
    obtain ⟨mods, hs⟩ := shape_of_decoratedClass h
    exact grade_of_shape hs (Nat.le_refl 4) rfl
  case h_12 =>
    rw [runs_bind] at h
    obtain ⟨value, c₁, hv, h⟩ := h
    have hg : Grade 4 c value := grade_leaf hv (Nat.le_refl 4) rfl
    grind
  case h_16 =>
    obtain ⟨isGenerator, isDeclared, hs⟩ := shape_of_functionWithName h
    exact grade_of_shape hs (Nat.le_refl 4) rfl
  case h_17 =>
    obtain ⟨mods, hs⟩ := shape_of_classRest h
    exact grade_of_shape hs (Nat.le_refl 4) rfl
  case h_18 =>
    rcases shape_of_newExpression h with hs | hs
    · exact grade_of_shape hs (Nat.le_refl 4) rfl
    · exact grade_of_shape hs (Nat.le_refl 4) rfl
  case h_19 =>
    rcases shape_of_importExpression h with hs | hs
    · exact grade_of_shape hs (Nat.le_refl 4) rfl
    · exact grade_of_shape hs (Nat.le_refl 4) rfl
  case h_20 =>
    simp only [runs_bind, runs_nextIs, runs_ite] at h
    obtain ⟨isFunction, _, ⟨rfl, -⟩, h⟩ := h
    split at h
    · obtain ⟨_, _, -, h⟩ := h
      obtain ⟨isGenerator, isDeclared, hs⟩ := shape_of_functionWithName h
      exact grade_of_shape hs (Nat.le_refl 4) rfl
    · exact grade_reference h
  case h_21 => exact grade_reference h
  case h_22 => cases h

/-! ### Accesses and calls -/

theorem grade_withTypeArguments {inner : ℕ} {rest : List Node} (h : Grade inner c node)
    (ht : tightness ≤ shape.tightness) (ho : shape.opensWithPart) :
    Grade tightness c (.mk shape span (withTypeArguments node ++ rest)) := by
  unfold withTypeArguments
  split
  · next inner operand arguments =>
    have hop : Grade 0 c operand := by
      refine ⟨Nat.zero_le _, fun hb => h.brace ?_⟩
      simpa [Node.leadsWithBrace, Shape.opensWithPart] using hb
    exact hop.of_first ht ho
  · exact h.of_first ht ho

/-- What an access or a call makes of an operand: the operand comes first, perhaps with its type arguments apart. -/
inductive Heads (operand : Node) : Node → Prop
  | plain {shape : Shape} {span : Span} {rest : List Node} (tight : 4 ≤ shape.tightness)
      (opens : shape.opensWithPart = true) : Heads operand (.mk shape span (operand :: rest))
  | apart {shape : Shape} {span : Span} {rest : List Node} (tight : 4 ≤ shape.tightness)
      (opens : shape.opensWithPart = true) : Heads operand (.mk shape span (withTypeArguments operand ++ rest))

theorem Heads.grade {operand : Node} (h : Heads operand node) (hop : Grade 4 c operand) : Grade 4 c node := by
  cases h with
  | plain ht ho => exact hop.of_first ht ho
  | apart ht ho => exact grade_withTypeArguments hop ht ho

section Access

variable {calls : Bool} {target extended : Chained} {c₀ : Cursor}

theorem shape_of_memberShape {object : Node} {optional : Bool}
    (h : Runs (memberShape object optional) context c shape c') :
    (∃ name, shape = .member name optional) ∨ ∃ name, shape = .privateMember name optional := by
  simp only [memberShape, runs_bind, runs_flawIf, runs_tokenKind] at h
  obtain ⟨_, c₁, -, kind, c₂, -, h⟩ := h
  split at h <;> grind

theorem heads_access {object : Node} {optional : Bool} (h : Runs (memberShape object optional) context c shape c') :
    Heads object (.mk shape span [object]) := by
  rcases shape_of_memberShape h with ⟨name, rfl⟩ | ⟨name, rfl⟩
  · exact .plain (Nat.le_refl 4) rfl
  · exact .plain (Nat.le_refl 4) rfl

theorem heads_optionalStep (h : Runs (optionalStep g start target) context c (some extended) c') :
    Heads target.node extended.node := by
  simp only [optionalStep, runs_bind, runs_next, runs_sees, runs_ite, runs_finish, runs_pure] at h
  obtain ⟨_, c₁, -, isIndex, c₂, -, h⟩ := h
  split at h
  · obtain ⟨_, c₃, -, index, c₄, -, _, c₅, -, _, _, ⟨-, rfl⟩, -, ⟨⟩⟩ := h
    exact .plain (Nat.le_refl 4) rfl
  · obtain ⟨isCall, c₃, -, isTyped, c₄, -, h⟩ := h
    split at h
    · obtain ⟨typed, c₅, -, h⟩ := h
      split at h
      · obtain ⟨types, c₆, -, _, _, ⟨-, rfl⟩, arguments, c₇, -, _, _, ⟨-, rfl⟩, -, ⟨⟩⟩ := h
        exact .plain (Nat.le_refl 4) rfl
      · obtain ⟨_, _, ⟨-, rfl⟩, arguments, c₆, -, _, _, ⟨-, rfl⟩, -, ⟨⟩⟩ := h
        exact .plain (Nat.le_refl 4) rfl
    · obtain ⟨shape, c₅, hs, _, _, ⟨-, rfl⟩, -, ⟨⟩⟩ := h
      exact heads_access hs

theorem heads_accessStep (h : Runs (accessStep g start calls target) context c (some extended) c') :
    Heads target.node extended.node := by
  rw [accessStep, runs_read_bind, runs_token_bind] at h
  split at h
  case h_1 =>
    simp only [runs_bind, runs_next, runs_finish, runs_pure] at h
    obtain ⟨_, _, -, shape, _, hs, _, _, ⟨-, rfl⟩, -, ⟨⟩⟩ := h
    exact heads_access hs
  case h_2 =>
    split at h
    · exact heads_optionalStep h
    · cases (runs_pure.mp h).2
  case h_3 =>
    split at h
    · cases (runs_pure.mp h).2
    · simp only [runs_bind, runs_next, runs_finish, runs_pure] at h
      obtain ⟨_, _, -, index, _, -, _, _, -, _, _, ⟨-, rfl⟩, -, ⟨⟩⟩ := h
      exact .plain (Nat.le_refl 4) rfl
  case h_4 =>
    split at h
    · cases (runs_pure.mp h).2
    · simp only [runs_bind, runs_next, runs_finish, runs_pure] at h
      obtain ⟨_, _, -, _, _, ⟨-, rfl⟩, -, ⟨⟩⟩ := h
      exact .plain (Nat.le_refl 4) rfl
  case h_5 =>
    simp only [taggedTemplate, runs_bind, runs_finish, runs_pure] at h
    obtain ⟨_, _, -, value, _, -, _, _, ⟨-, rfl⟩, -, ⟨⟩⟩ := h
    exact .apart (Nat.le_refl 4) rfl
  case h_6 =>
    split at h
    · simp only [runs_bind, runs_finish, runs_pure] at h
      obtain ⟨arguments, _, -, _, _, ⟨-, rfl⟩, -, ⟨⟩⟩ := h
      exact .apart (Nat.le_refl 4) rfl
    · cases (runs_pure.mp h).2
  case h_7 =>
    rw [runs_bind] at h
    obtain ⟨types, _, -, h⟩ := h
    cases types with
    | none => cases (runs_pure.mp h).2
    | some types =>
      simp only [runs_bind, runs_finish, runs_pure] at h
      obtain ⟨_, _, ⟨-, rfl⟩, -, ⟨⟩⟩ := h
      exact .plain (Nat.le_refl 4) rfl

/-- An access or a call behind an operand is an operand again. -/
theorem grade_accessStep {found : Option Chained} (h : Runs (accessStep g start calls target) context c found c')
    (ht : Grade 4 c₀ target.node) : Grade 4 c₀ (found.getD target).node := by
  cases found with
  | none => exact ht
  | some extended => exact (heads_accessStep h).grade ht

end Access

theorem grades_leftHandSide : Grades 3 (leftHandSide g) := by
  intro _ c _ _ h
  rw [leftHandSide, runs_startOffset_bind] at h
  simp only [runs_bind, runs_ite, runs_finish, runs_pure] at h
  obtain ⟨head, c₁, hh, target, c₂, ht, h⟩ := h
  have hg : Grade 4 c target.node :=
    Runs.extend (fun target _ => Grade 4 c target.node) (fun hk hs => grade_accessStep hs hk) ht
      (grades_primary hh)
  split at h
  · obtain ⟨-, rfl⟩ := h
    exact hg.of_first (Nat.le_refl 3) rfl
  · obtain ⟨-, rfl⟩ := h
    exact hg.mono (by omega)

/-! ### Operators -/

theorem grades_markup (betweenTags : Bool) : Grades 3 (markup g betweenTags) := by
  intro _ _ _ _ h
  simp only [markup, fragment, element, runs_bind, runs_ite, runs_finish] at h
  obtain ⟨start, _, -, _, _, -, isFragment, _, -, h⟩ := h
  split at h
  · obtain ⟨_, _, -, children, _, -, _, _, -, _, _, -, _, _, -, -, rfl⟩ := h
    exact grade_of_shape rfl (Nat.le_refl 3) rfl
  · obtain ⟨name, _, -, parts, _, -, selfClosing, _, -, _, _, -, opening, _, -, h⟩ := h
    split at h
    · obtain ⟨-, rfl⟩ := h
      exact grade_of_shape rfl (Nat.le_refl 3) rfl
    · obtain ⟨children, _, -, closing, _, -, -, rfl⟩ := h
      exact grade_of_shape rfl (Nat.le_refl 3) rfl

theorem shape_of_operatorOperand (h : Runs (operatorOperand g start shape) context c node c') : node.shape = shape := by
  simp only [operatorOperand, runs_bind, runs_finish, runs_pure] at h
  obtain ⟨_, _, -, operand, _, -, _, _, ⟨-, rfl⟩, _, _, -, _, _, -, -, rfl⟩ := h
  rfl

theorem shape_of_typeAssertion (h : Runs (typeAssertion g) context c node c') : node.shape = .typeAssertion := by
  simp only [typeAssertion, runs_bind, runs_finish] at h
  obtain ⟨_, _, -, _, _, -, _, _, -, type, _, -, _, _, -, operand, _, -, -, rfl⟩ := h
  rfl

@[grind .]
theorem stays_seesAwait : Stays seesAwait := by
  intro _ _ _ _ h
  unfold seesAwait at h
  grind

@[grind .]
theorem stays_seesYield : Stays seesYield := by
  intro _ _ _ _ h
  unfold seesYield at h
  grind

theorem grades_updated [g.Graded] : Grades 3 (updated g) := by
  intro context c node c' h
  rw [updated, runs_startOffset_bind, runs_tokenKind_bind] at h
  have hu {increment before : Bool} {c₁ : Cursor} {target : Node}
      (h : Runs (finish c.token.span.start (.update increment before) [target]) context c₁ node c') :
      Grade 3 c node := by
    obtain ⟨-, rfl⟩ := runs_finish.mp h
    exact grade_of_shape rfl (Nat.le_refl 3) rfl
  split at h
  case h_1 | h_2 =>
    simp only [runs_bind] at h
    obtain ⟨increment, _, -, _, _, -, operand, _, -, target, _, -, h⟩ := h
    exact hu h
  case h_3 =>
    simp only [runs_bind, runs_read, runs_sees, runs_ite, runs_token] at h
    obtain ⟨_, _, ⟨rfl, -⟩, isMarkup, _, ⟨rfl, -⟩, h⟩ := h
    split at h
    · exact Grammar.Graded.markup false h
    · obtain ⟨operand, c₁, ho, t, _, -, h⟩ := h
      split at h
      · simp only [runs_bind] at h
        obtain ⟨target, _, -, _, _, -, h⟩ := h
        exact hu h
      · simp only [runs_bind] at h
        obtain ⟨target, _, -, _, _, -, h⟩ := h
        exact hu h
      · obtain ⟨-, rfl⟩ := runs_pure.mp h
        exact Grammar.Graded.leftHandSide ho

theorem grades_unary [g.Graded] : Grades 3 (unary g) := by
  intro _ _ _ _ h
  rw [unary, runs_startOffset_bind, runs_read_bind, runs_tokenKind_bind] at h
  split at h
  case h_8 =>
    simp only [runs_bind, runs_ite] at h
    obtain ⟨awaits, c₁, ha, h⟩ := h
    cases stays_seesAwait ha
    split at h
    · obtain ⟨_, _, -, h⟩ := h
      exact grade_of_shape (shape_of_operatorOperand h) (Nat.le_refl 3) rfl
    · exact grades_updated h
  case h_9 | h_10 =>
    split at h
    · exact grades_updated h
    · exact grade_of_shape (shape_of_typeAssertion h) (Nat.le_refl 3) rfl
  case h_11 => exact grades_updated h
  all_goals exact grade_of_shape (shape_of_operatorOperand h) (Nat.le_refl 3) rfl

/-- An operand with a binary operator behind it and another operand is one with binary operators again. -/
theorem grade_binaryStep {found : Option Node} {c₀ : Cursor}
    (h : Runs (binaryStep g start level left) context c found c') (hl : Grade 2 c₀ left) :
    Grade 2 c₀ (found.getD left) := by
  simp only [binaryStep, runs_bind, runs_tokenKind] at h
  obtain ⟨_, _, -, kind, _, -, h⟩ := h
  split at h
  · obtain ⟨-, rfl⟩ := runs_pure.mp h
    exact hl
  · have hg (shape : Shape) (span : Span) (right : Node) (ht : 2 ≤ shape.tightness)
        (ho : shape.opensWithPart = true) : Grade 2 c₀ (.mk shape span [left, right]) :=
      hl.of_first ht ho
    have has := fun span right => hg .asType span right (Nat.le_refl 2) rfl
    have hs := fun span right => hg .satisfies span right (Nat.le_refl 2) rfl
    have hlo := fun symbol span right => hg (.logical symbol) span right (Nat.le_refl 2) rfl
    have hb := fun symbol span right => hg (.binary symbol) span right (Nat.le_refl 2) rfl
    clear hg
    grind

theorem grades_firstOperand [g.Graded] (level : ℕ) : Grades 3 (firstOperand g level) := by
  intro _ c _ _ h
  rw [firstOperand, runs_tokenKind_bind] at h
  split at h
  · rw [runs_bind] at h
    obtain ⟨operand, c₁, ho, h⟩ := h
    have hg : Grade 3 c operand := grade_leaf ho (Nat.le_succ 3) rfl
    grind
  · exact Grammar.Graded.unary h

theorem grades_binary [g.Graded] (level : ℕ) : Grades 2 (binary g level) := by
  intro _ c node _ h
  rw [binary, runs_startOffset_bind, runs_bind] at h
  obtain ⟨first, c₁, hf, h⟩ := h
  exact Runs.extend (fun node _ => Grade 2 c node) (fun hk hs => grade_binaryStep hs hk) h
    ((grades_firstOperand level hf).mono (by omega))

theorem symbolLevel_of_binaryOp? {kind : TokenKind} {logical : Bool} {symbol : String}
    (h : binaryOp? kind = some (level, logical, symbol)) : symbolLevel symbol = level := by
  unfold binaryOp? at h
  split at h <;> cases h <;> rfl

/-- What is read behind operators of a level binds tighter than these. -/
theorem bindsBehind_binaryStep {found : Option Node}
    (h : Runs (binaryStep g start level left) context c found c') (hle : bindsBehind level left.shape.level) :
    bindsBehind level (found.getD left).shape.level := by
  simp only [binaryStep, runs_bind, runs_tokenKind] at h
  obtain ⟨_, _, -, kind, _, ⟨rfl, rfl⟩, h⟩ := h
  split at h
  · obtain ⟨-, rfl⟩ := runs_pure.mp h
    exact hle
  · next opLevel logical symbol ho =>
    have hl := symbolLevel_of_binaryOp? ho
    by_cases hbi : bindsBehind level opLevel = true
    · have hb (shape : Shape) (hs : shape.level = opLevel) (span : Span) (right : Node) :
          bindsBehind level (Node.mk shape span [left, right]).shape.level = true := by
        rw [Node.shape, hs, hbi]
      have has := hb .asType
      have hsa := hb .satisfies
      have hlo := hb (.logical symbol) hl
      have hbn := hb (.binary symbol) hl
      clear hb
      grind [symbolLevel, Shape.level]
    · rw [runs_read_bind, if_pos (by unfold bindsBehind at hbi; split at hbi <;> simp_all)] at h
      obtain ⟨-, rfl⟩ := runs_pure.mp h
      exact hle

theorem bindsBehind_of_tight (h : 3 ≤ shape.tightness) (hl : level ≤ 12) :
    bindsBehind level shape.level := by
  simp only [Shape.level_eq h, bindsBehind]
  simpa using Nat.lt_succ_of_le hl

theorem readsBehind_binary [g.Graded] (level : ℕ) (hl : level ≤ 12) : ReadsBehind level (binary g level) := by
  intro context c node c' h
  rw [binary, runs_startOffset_bind, runs_bind] at h
  obtain ⟨first, c₁, hf, h⟩ := h
  exact Runs.extend (fun node _ => bindsBehind level node.shape.level = true)
    (fun hk hs => bindsBehind_binaryStep hs hk) h
    (bindsBehind_of_tight (grades_firstOperand level hf).tight hl)

/-! ### Arrow functions -/

/-- The body of an arrow function that is an expression. -/
theorem fitsArrow_of_arrowBody [g.Graded] {nodes : List Node}
    (h : Runs (arrowBody g isAsync allowReturn) context c (true, nodes) c') :
    ∃ body, nodes = [body] ∧ FitsArrow body := by
  simp only [arrowBody, runs_bind, runs_sees, runs_ite, runs_withReader, runs_pure] at h
  obtain ⟨isBlock, _, ⟨rfl, hb⟩, h⟩ := h
  split at h
  · obtain ⟨body, _, -, -, h⟩ := h
    cases h
  · next ho =>
    obtain ⟨value, _, hv, -, h⟩ := h
    cases h
    have hg := Grammar.Graded.assignment allowReturn hv
    refine ⟨value, rfl, hg.tight, ?_⟩
    rw [Bool.eq_false_iff]
    exact fun hbr => ho (hb.mpr (hg.brace hbr))

theorem shape_of_simpleArrow {name : String}
    (h : Runs (simpleArrow g start name span isAsync allowReturn) context c node c') :
    ∃ isExpression, node.shape = .arrow isAsync isExpression := by
  simp only [simpleArrow, runs_bind, runs_finish] at h
  obtain ⟨_, _, -, ⟨isExpression, body⟩, _, -, -, rfl⟩ := h
  exact ⟨isExpression, rfl⟩

theorem shape_of_arrowFunction (h : Runs (arrowFunction g allowReturn) context c node c') :
    ∃ isAsync isExpression, node.shape = .arrow isAsync isExpression := by
  simp only [arrowFunction, runs_bind] at h
  obtain ⟨start, _, -, isAsync, _, -, list, _, -, result, _, -, _, _, -, ⟨isExpression, body⟩, _, -, function, _,
    hf, h⟩ := h
  obtain ⟨-, rfl⟩ := runs_finish.mp hf
  refine ⟨isAsync, isExpression, ?_⟩
  grind [Node.shape]

theorem shape_of_arrowFunction? (h : Runs (arrowFunction? g allowReturn) context c (some node) c') :
    ∃ isAsync isExpression, node.shape = .arrow isAsync isExpression := by
  simp only [arrowFunction?, runs_bind] at h
  obtain ⟨verdict, _, -, h⟩ := h
  cases verdict with
  | yes =>
    simp only [runs_bind, runs_pure] at h
    obtain ⟨function, _, hf, -, h⟩ := h
    cases h
    exact shape_of_arrowFunction hf
  | no => cases (runs_pure.mp h).2
  | maybe =>
    rcases runs_attempt.mp h with ⟨function, h, hf⟩ | ⟨h, -⟩
    · cases h
      exact shape_of_arrowFunction hf
    · cases h

/-! ### Assignments -/

theorem shape_of_yieldExpression (h : Runs (yieldExpression g) context c node c') : node.shape = .yield := by
  unfold yieldExpression at h
  grind [Node.shape]

theorem simpleTarget?_shape {target : Node} (h : simpleTarget? left = some target) : target.shape ≠ .objectPattern := by
  fun_induction simpleTarget? left
  case case1 ih => exact ih h
  all_goals grind [Node.shape, Option.map_eq_some_iff]

/-- The properties of an object are assigned to where the object is written. -/
theorem leadsWithBrace_of_assignTarget? {op : AssignOp} {target : Node} (h : assignTarget? op left = some target)
    (ht : target.shape = .objectPattern) : left.leadsWithBrace := by
  unfold assignTarget? at h
  split at h
  · rcases left with ⟨shape, span, parts⟩
    unfold target? at h
    split at h
    · obtain ⟨targets, -, rfl⟩ := Option.map_eq_some_iff.mp h
      cases ht
    · next heq =>
      cases heq
      rw [Node.leadsWithBrace]
    · exact absurd ht (simpleTarget?_shape h)
    · exact absurd ht (simpleTarget?_shape h)
  · exact absurd ht (simpleTarget?_shape h)

/-- An assignment starts with a brace only if what it assigns to does. -/
theorem grade_assign {op : AssignOp} {target value : Node} (h : Grade 2 c left)
    (ht : assignTarget? op left = some target) : Grade 1 c (.mk (.assign op) span [target, value]) := by
  refine ⟨Nat.le_refl 1, fun hb => h.brace (leadsWithBrace_of_assignTarget? ht ?_)⟩
  rcases target with ⟨shape, inner, parts⟩
  unfold Node.leadsWithBrace at hb
  split at hb
  · next heq => cases heq
  · next heq =>
    cases heq
    rfl
  · next heq =>
    cases heq
    cases hb
  · cases hb

theorem grade_conditionalRest {test : Node} {c₀ : Cursor}
    (h : Runs (conditionalRest g start allowReturn test) context c node c') (ht : Grade 2 c₀ test) :
    Grade 1 c₀ node := by
  simp only [conditionalRest, runs_bind, runs_ite, runs_finish, runs_pure] at h
  obtain ⟨isTest, _, -, h⟩ := h
  split at h
  · obtain ⟨yes, _, -, _, _, -, no, _, -, -, rfl⟩ := h
    exact ht.of_first (Nat.le_refl 1) rfl
  · obtain ⟨-, rfl⟩ := h
    exact ht.mono (by omega)

theorem grade_assignmentRest {c₀ : Cursor} (h : Runs (assignmentRest g start allowReturn left) context c node c')
    (hl : Grade 2 c₀ left) : Grade 1 c₀ node := by
  simp only [assignmentRest, runs_bind, runs_tokenKind] at h
  obtain ⟨kind, _, -, h⟩ := h
  split at h
  case h_1 =>
    obtain ⟨isExpression, hs⟩ := shape_of_simpleArrow h
    exact grade_of_shape hs (Nat.le_refl 1) rfl
  case h_2 =>
    split at h
    · next target ht =>
      simp only [runs_bind, runs_finish] at h
      obtain ⟨_, _, -, value, _, -, -, rfl⟩ := h
      exact grade_assign hl ht
    · cases h
  case h_3 => exact grade_conditionalRest h hl

@[grind .]
theorem stays_seesAsyncArrow : Stays seesAsyncArrow := by
  intro _ _ _ _ h
  unfold seesAsyncArrow at h
  grind

theorem runs_judgeArrow {verdict : Verdict} (h : Runs judgeArrow context c verdict c') : c' = c := by
  simp only [Runs, judgeArrow] at h
  split at h <;> simp_all

grind_pattern runs_judgeArrow => Runs judgeArrow context c verdict c'

theorem cursor_of_arrowFunction? (h : Runs (arrowFunction? g allowReturn) context c none c') : c' = c := by
  simp only [arrowFunction?, runs_bind] at h
  obtain ⟨verdict, _, hv, h⟩ := h
  cases runs_judgeArrow hv
  cases verdict with
  | yes =>
    simp only [runs_bind, runs_pure] at h
    obtain ⟨function, _, -, -, h⟩ := h
    cases h
  | no => exact (runs_pure.mp h).1
  | maybe =>
    rcases runs_attempt.mp h with ⟨function, h, -⟩ | ⟨-, h, -⟩
    · cases h
    · exact h

theorem grades_assignment [g.Graded] (allowReturn : Bool) : Grades 1 (assignment g allowReturn) := by
  intro _ _ _ _ h
  rw [assignment, runs_startOffset_bind, runs_read_bind] at h
  simp only [runs_bind, runs_ite] at h
  obtain ⟨yields, c₁, hy, h⟩ := h
  cases stays_seesYield hy
  split at h
  · obtain ⟨_, _, -, h⟩ := h
    exact grade_of_shape (shape_of_yieldExpression h) (Nat.le_refl 1) rfl
  · obtain ⟨arrow, c₂, ha, h⟩ := h
    cases arrow with
    | some function =>
      obtain ⟨-, rfl⟩ := runs_pure.mp h
      obtain ⟨isAsync, isExpression, hs⟩ := shape_of_arrowFunction? ha
      exact grade_of_shape hs (Nat.le_refl 1) rfl
    | none =>
      cases cursor_of_arrowFunction? ha
      simp only [runs_bind, runs_ite] at h
      obtain ⟨isAsync, c₂, has, h⟩ := h
      cases stays_seesAsyncArrow has
      split at h
      · simp only [asyncArrow, runs_bind] at h
        obtain ⟨start, _, -, _, _, -, cursor, _, -, name, _, -, h⟩ := h
        obtain ⟨isExpression, hs⟩ := shape_of_simpleArrow h
        exact grade_of_shape hs (Nat.le_refl 1) rfl
      · obtain ⟨left, _, hl, h⟩ := h
        exact grade_assignmentRest h (Grammar.Graded.binary 0 hl)

theorem tight_of_binary [g.Graded] (h : Runs (g.binary level) context c node c') :
    2 ≤ node.shape.tightness := (Grammar.Graded.binary level h).tight

grind_pattern tight_of_binary => Runs (g.binary level) context c node c'

theorem binds_of_binary [g.Graded] {kind : TokenKind} {logical : Bool} {symbol : String}
    (ho : binaryOp? kind = some (level, logical, symbol)) (h : Runs (g.binary level) context c node c') :
    bindsBehind (symbolLevel symbol) node.shape.level := by
  have hl : level ≤ 12 := by
    unfold binaryOp? at ho
    split at ho <;> cases ho <;> decide
  rw [symbolLevel_of_binaryOp? ho]
  exact Grammar.Graded.behind level hl h

/-- The rules of the grammar read as tight as they are nested, however deep that is. -/
instance Grammar.graded_level (n : ℕ) : (Grammar.level n).Graded := by
  induction n with
  | zero => constructor <;> intros <;> intro context c node c' h <;> cases h
  | succ n ih =>
    exact {
      assignment := grades_assignment
      binary := grades_binary
      behind := readsBehind_binary
      unary := grades_unary
      leftHandSide := grades_leftHandSide
      markup := grades_markup }

end Polyview.Script
