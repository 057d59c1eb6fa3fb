import Polyview.Proofs.Script.Grade
import Polyview.Proofs.Script.Reading.Function
import Polyview.Proofs.Script.Reading.Markup

/-! # What expressions read -/

namespace Polyview.Script

variable {g : Grammar} [g.Sound] {source : List Char} {context : Context} {c c' : Cursor} {node : Node}
  {nodes : List Node} {allowReturn isAsync : Bool} {name : String} {span : Span}

/-! ### Literals -/

@[grind .]
theorem lays_spreadOrValue : LaysNode (spreadOrValue g) := by
  intro _ _ _ _ _ h hc
  unfold spreadOrValue at h
  grind

@[grind .]
theorem lays_arrayLiteral : LaysNode (arrayLiteral g) := by
  intro source _ _ _ _ h hc
  simp only [arrayLiteral, runs_bind, runs_inBrackets] at h
  obtain ⟨start, c₁, hs, _, c₂, ho, parts, c₃, hp, h⟩ := h
  have hr : Reads source c₂.token.span.start c₂ parts c₃ :=
    LaysNode.manyUntil (fun _ _ _ _ _ h hc => by grind) (stays_sees _).advances hp
      (by grind)
  grind

@[grind .]
theorem lays_objectMethod (kind : MethodKind) (isAsync isGenerator : Bool) :
    LaysNode (objectMethod g kind isAsync isGenerator) := by
  intro _ _ _ _ _ h hc
  unfold objectMethod at h
  grind

@[grind →]
theorem reads_objectAccessor {start : ℕ} (h : Runs (objectAccessor g start) context c node c')
    (hc : c.On source) : Grows source start [] c node c' := by
  unfold objectAccessor at h
  grind

@[grind .]
theorem stays_seesAsyncMethod : Stays seesAsyncMethod := by
  intro _ _ _ _ h
  unfold seesAsyncMethod at h
  grind

@[grind →]
theorem reads_shorthandProperty {start : ℕ} {name : TokenKind} {key : Node}
    (h : Runs (shorthandProperty g start name key) context c node c') (hc : c.On source)
    (hl : start < c.prevStop) (hk : key.span.start < key.span.stop) : Grows source start [key] c node c' := by
  unfold shorthandProperty at h
  split at h <;> grind

@[grind →]
theorem reads_objectMember {start : ℕ} (h : Runs (objectMember g start isAsync) context c node c') (hc : c.On source) :
    Grows source start [] c node c' := by
  unfold objectMember at h
  grind

@[grind .]
theorem lays_objectProperty : LaysNode (objectProperty g) := by
  intro _ _ _ _ _ h hc
  rw [objectProperty, runs_startOffset_bind, runs_tokenKind_bind] at h
  split at h <;> grind

@[grind .]
theorem lays_objectLiteral : LaysNode (objectLiteral g) := by
  intro _ _ _ _ _ h hc
  unfold objectLiteral at h
  grind

@[grind .]
theorem lays_templateLiteral (tagged : Bool) : LaysNode (templateLiteral g tagged) := by
  exact lays_templateWith tagged Grammar.Sound.expression rfl

@[grind .]
theorem lays_callArguments : LaysNode (callArguments g) := by
  intro _ _ _ _ _ h hc
  unfold callArguments at h
  grind

/-! ### Operands -/

@[grind .]
theorem lays_parenthesized : LaysNode (parenthesized g) := by
  intro _ _ _ _ _ h hc
  unfold parenthesized at h
  grind

@[grind .]
theorem lays_decoratedClass : LaysNode (decoratedClass g) := by
  intro _ _ _ _ _ h hc
  unfold decoratedClass at h
  grind

@[grind →]
theorem reads_importCall {start : ℕ} (h : Runs (importCall g start) context c node c') (hc : c.On source) :
    Grows source start [] c node c' := by
  unfold importCall at h
  grind

@[grind →]
theorem reads_importMember {start : ℕ} (h : Runs (importMember g start) context c node c') (hc : c.On source) :
    Grows source start [] c node c' := by
  rw [importMember, runs_keyword?_bind] at h
  split at h <;> grind

@[grind .]
theorem lays_importExpression : LaysNode (importExpression g) := by
  intro _ _ _ _ _ h hc
  unfold importExpression at h
  grind

theorem Row.withTypeArguments {lo hi : ℕ} (h : Row source [node] lo hi) :
    Row source (withTypeArguments node) lo hi := by
  fun_cases Script.withTypeArguments node <;> grind

grind_pattern Row.withTypeArguments => Row source [node] lo hi, withTypeArguments node

@[grind .]
theorem lays_newExpression : LaysNode (newExpression g) := by
  intro _ _ _ _ _ h hc
  unfold newExpression at h
  grind

/-- A slash is read again, with what follows it. -/
theorem reads_regexLiteral {sign : Punct} (hs : c.token.kind = .punct sign)
    (ho : ∀ entry ∈ spellings, entry.2 = sign → entry.1.head? = some '/')
    (h : Runs regexLiteral context c node c') (hc : c.On source) : ReadsNode source c.token.span.start c node c' := by
  have hon := hc.rescan_behind '/' hs ho fits_scanRegex
  simp only [regexLiteral, runs_bind, runs_modify, runs_tokenKind] at h
  obtain ⟨_, c₁, rfl, kind, c₂, ⟨rfl, rfl⟩, h⟩ := h
  split at h <;> grind

@[grind .]
theorem lays_primary : LaysNode (primary g) := by
  intro _ _ _ _ _ h hc
  rw [primary, runs_startOffset_bind, runs_tokenKind_bind] at h
  split at h
  case h_8 hs => exact reads_regexLiteral hs (by decide) h hc
  case h_9 hs => exact reads_regexLiteral hs (by decide) h hc
  all_goals grind

/-! ### Accesses and calls -/

@[grind .]
theorem stays_touchesGreater : Stays touchesGreater := fun _ _ _ _ h => (runs_look.mp h).1

@[grind .]
theorem lays_instantiationArguments : LaysNode (instantiationArguments g) := by
  intro _ _ _ _ _ h hc
  unfold instantiationArguments at h
  grind

@[grind .]
theorem lays_expressionTypeArguments? : LaysSome (expressionTypeArguments? g) := by
  intro _ _ _ _ _ h hc
  simp only [expressionTypeArguments?, runs_bind, runs_ite, runs_attempt, runs_pure] at h
  grind

@[grind →]
theorem reads_memberShape {target : Node} {optional : Bool} {shape : Shape}
    (h : Runs (memberShape target optional) context c shape c') (hc : c.On source) :
    Leads source c c' ∧ c.token.span.start < c'.prevStop ∧
      (shape.isPlain ∨ ∃ name, shape = .member name optional) := by
  simp only [memberShape, runs_bind, runs_flawIf] at h
  obtain ⟨_, c₁, rfl, kind, c₂, hk, h⟩ := h
  split at h <;> grind

section Access

variable {start : ℕ} {calls : Bool} {target : Chained} {found : Option Chained} {c₀ : Cursor}

theorem reads_optionalStep (h : Runs (optionalStep g start target) context c found c')
    (hs : Boundary source start) (hr : ReadsNode source start c₀ target.node c)
    (ht : 4 ≤ target.node.shape.tightness) : ReadsNode source start c₀ (found.getD target).node c' := by
  unfold optionalStep at h
  grind

theorem reads_taggedTemplate (h : Runs (taggedTemplate g start target) context c found c')
    (hs : Boundary source start) (hr : ReadsNode source start c₀ target.node c) :
    ReadsNode source start c₀ (found.getD target).node c' := by
  unfold taggedTemplate at h
  grind

theorem reads_accessStep (h : Runs (accessStep g start calls target) context c found c')
    (hs : Boundary source start) (hr : ReadsNode source start c₀ target.node c)
    (ht : 4 ≤ target.node.shape.tightness) : ReadsNode source start c₀ (found.getD target).node c' := by
  rw [accessStep, runs_read_bind, runs_token_bind] at h
  split at h
  case h_2 =>
    split at h
    · exact reads_optionalStep h hs hr ht
    · grind
  case h_5 => exact reads_taggedTemplate h hs hr
  case h_7 =>
    rw [runs_bind] at h
    obtain ⟨types, c₁, hty, h⟩ := h
    cases types <;> grind
  all_goals grind

/-- An operand is read with the accesses and calls behind it, whatever their number. -/
theorem reads_accesses {head : Node} {c₁ : Cursor} (hc : c.On source) (hh : Runs (primary g) context c head c₁)
    (h : Runs (extend { node := head } (accessStep g c.token.span.start calls)) context c₁ target c') :
    ReadsNode source c.token.span.start c target.node c' := by
  have hk : ReadsNode source c.token.span.start c target.node c' ∧ Grade 4 c target.node :=
    Runs.extend (fun target c' => ReadsNode source c.token.span.start c target.node c' ∧ Grade 4 c target.node)
      (fun hk hs => ⟨reads_accessStep hs hc.start_boundary hk.1 hk.2.tight, grade_accessStep hs hk.2⟩)
      h ⟨lays_primary hh hc, grades_primary hh⟩
  exact hk.1

end Access

@[grind .]
theorem lays_constructed : LaysNode (constructed g) := by
  intro _ _ _ _ _ h hc
  rw [constructed, runs_startOffset_bind] at h
  simp only [runs_bind, runs_pure] at h
  obtain ⟨head, c₁, hh, target, c₂, ht, rfl, rfl⟩ := h
  exact reads_accesses hc hh ht

@[grind .]
theorem lays_leftHandSide : LaysNode (leftHandSide g) := by
  intro _ _ _ _ _ h hc
  rw [leftHandSide, runs_startOffset_bind] at h
  simp only [runs_bind] at h
  obtain ⟨head, c₁, hh, target, c₂, ht, h⟩ := h
  have hr := reads_accesses hc hh ht
  clear ht hh
  grind

/-! ### Operators -/

theorem Cursor.On.rescan_greater (h : c.On source) : (c.rescan (scanPunctOf greaterTable)).On source :=
  h.rescan (fits_scanGreater _)

grind_pattern Cursor.On.rescan_greater => c.rescan (scanPunctOf greaterTable), Follows source 0 source

@[grind .]
theorem advances_joinGreater : Advances joinGreater := by
  intro _ _ _ _ _ h hc
  unfold joinGreater at h
  grind

theorem reads_updateTarget {operand : Node} (h : Runs (updateTarget operand) context c node c') :
    (c' = c ∨ c' = c.flag true) ∧ (operand.Laid source → operand.span.start < operand.span.stop →
      operand.outset = operand.span.start → Fills source operand node) := by
  unfold updateTarget at h
  split at h <;> grind

grind_pattern reads_updateTarget => Runs (updateTarget operand) context c node c', Follows source 0 source

@[grind .]
theorem lays_updated : LaysNode (updated g) := by
  intro _ _ _ _ _ h hc
  rw [updated, runs_startOffset_bind, runs_tokenKind_bind] at h
  split at h
  case h_3 =>
    simp only [runs_bind, runs_read, runs_ite, runs_token, runs_sees] at h
    obtain ⟨_, _, ⟨rfl, rfl⟩, less, _, ⟨rfl, -⟩, h⟩ := h
    split at h
    · grind
    · obtain ⟨operand, c₁, ho, behind, c₂, ⟨rfl, rfl⟩, h⟩ := h
      split at h <;> grind
  all_goals grind

@[grind →]
theorem reads_operatorOperand {start : ℕ} {shape : Shape}
    (h : Runs (operatorOperand g start shape) context c node c') (hc : c.On source)
    (hs : shape.isPlain) : Grows source start [] c node c' := by
  unfold operatorOperand at h
  grind

@[grind .]
theorem lays_typeAssertion : LaysNode (typeAssertion g) := by
  intro _ _ _ _ _ h hc
  unfold typeAssertion at h
  grind

@[grind .]
theorem lays_unary : LaysNode (unary g) := by
  intro _ _ _ _ _ h hc
  rw [unary, runs_startOffset_bind, runs_read_bind, runs_tokenKind_bind] at h
  split at h <;> grind

theorem reads_binaryStep [g.Graded] {start level : ℕ} {left : Node} {found : Option Node} {c₀ : Cursor}
    (h : Runs (binaryStep g start level left) context c found c') (hs : Boundary source start)
    (hre : ReadsNode source start c₀ left c) : ReadsNode source start c₀ (found.getD left) c' := by
  simp only [binaryStep, runs_bind, runs_tokenKind] at h
  obtain ⟨_, c₁, hj, kind, c₂, ⟨rfl, rfl⟩, h⟩ := h
  split at h
  · grind
  · next opLevel logical symbol ho =>
    have hb {context c right c'} (hr : Runs (g.binary opLevel) context c right c') :
        bindsBehind (symbolLevel symbol) right.shape.level = true :=
      binds_of_binary ho hr
    clear ho
    grind

@[grind .]
theorem lays_firstOperand (level : ℕ) : LaysNode (firstOperand g level) := by
  intro _ _ _ _ _ h hc
  rw [firstOperand, runs_tokenKind_bind] at h
  split at h <;> grind

@[grind .]
theorem lays_binary [g.Graded] (level : ℕ) : LaysNode (binary g level) := by
  intro source _ _ _ _ h hc
  simp only [binary, runs_bind, runs_startOffset] at h
  obtain ⟨start, c₁, ⟨rfl, rfl⟩, first, c₂, hf, h⟩ := h
  exact Runs.extend (ReadsNode source _ _)
    (fun hr hs => reads_binaryStep hs hc.start_boundary hr) h (lays_firstOperand level hf hc)

/-! ### Arrow functions -/

@[grind →]
theorem reads_arrowBody {isExpression : Bool}
    (h : Runs (arrowBody g isAsync allowReturn) context c (isExpression, nodes) c') (hc : c.On source) :
    Reads source c.token.span.start c nodes c' := by
  unfold arrowBody at h
  grind

@[grind .]
theorem lays_arrowParams (isAsync : Bool) : Lays id (arrowParams g isAsync) := by
  intro _ _ _ _ _ h hc
  unfold arrowParams at h
  grind

@[grind .]
theorem moves_arrowSign : Moves arrowSign := by
  intro _ _ _ _ _ h hc
  unfold arrowSign at h
  grind

/-- A function with an arrow is laid out if its parts are, and if a body that is an expression may stand there. -/
theorem laid_arrow {isExpression : Bool} {front body : List Node} (hf : Boundary source span.start)
    (hl : Boundary source span.stop) (hlt : span.start < span.stop)
    (hr : Row source (front ++ body) span.start span.stop)
    (hfi : isExpression → ∃ value, body = [value] ∧ FitsArrow value) :
    (Node.mk (.arrow isAsync isExpression) span (front ++ body)).Laid source := by
  cases isExpression with
  | false => exact (laid_mk_of_isPlain rfl).mpr ⟨hf, hl, hlt, hr⟩
  | true =>
    obtain ⟨value, rfl, hv⟩ := hfi rfl
    exact (laid_mk_of_isFramed rfl).mpr ⟨hf, hl, hlt, ⟨front, value, rfl, hv⟩, hr⟩

@[grind .]
theorem lays_arrowFunction [g.Graded] (allowReturn : Bool) : LaysNode (arrowFunction g allowReturn) := by
  intro source _ c _ _ h hc
  rw [arrowFunction, runs_startOffset_bind] at h
  simp only [runs_bind] at h
  obtain ⟨isAsync, c₁, ha, list, c₂, hli, result, c₃, hrs, _, c₄, hs, ⟨isExpression, body⟩, c₅,
    hb, function, c₆, hf, h⟩ := h
  have hfi : isExpression = true → ∃ value, body = [value] ∧ FitsArrow value := by
    rintro rfl
    exact fitsArrow_of_arrowBody hb
  have hre : ReadsNode source c.token.span.start c function c₆ := by
    obtain ⟨rfl, rfl⟩ := runs_finish.mp hf
    clear h hf
    have hr : Row source (list ++ result ++ body) c.token.span.start c₆.prevStop := by grind
    have hlt : c.token.span.start < c₆.prevStop := by grind
    have hl : Boundary source c₆.prevStop := by grind
    have hla : (Node.mk (.arrow isAsync isExpression) ⟨c.token.span.start, c₆.prevStop⟩
        (list ++ result ++ body)).Laid source := laid_arrow hc.start_boundary hl hlt hr hfi
    grind
  grind

@[grind .]
theorem lays_arrowFunction? [g.Graded] (allowReturn : Bool) : LaysSome (arrowFunction? g allowReturn) := by
  intro _ _ _ _ _ h hc
  simp only [arrowFunction?, runs_bind] at h
  obtain ⟨verdict, c₁, hv, h⟩ := h
  cases runs_judgeArrow hv
  cases verdict <;> simp only [runs_bind, runs_attempt, runs_pure] at h <;> grind

/-- A single name for the parameters of a function. -/
theorem laid_singleParam (hf : Boundary source span.start) (hl : Boundary source span.stop)
    (hlt : span.start < span.stop) :
    (Node.mk .params span [.mk (.param false {}) span [.mk (.binding name) span []]]).Laid source := by
  have ha {shape : Shape} {inner : Node} (hsh : shape.isPlain = true) (hi : inner.Laid source)
      (hs : inner.span = span) (hfl : inner.outset = span.start) :
      (Node.mk shape span [inner]).Laid source := by
    grind
  have hn : (Node.mk (.binding name) span []).Laid source := by grind
  exact ha rfl (ha rfl hn rfl rfl) rfl rfl

@[grind →]
theorem reads_simpleArrow [g.Graded] {start : ℕ}
    (h : Runs (simpleArrow g start name span isAsync allowReturn) context c node c') (hc : c.On source)
    (hs : Boundary source start) (hfs : Boundary source span.start) (hla : Boundary source span.stop)
    (hle : start ≤ span.start) (hlt : span.start < span.stop) (hso : span.stop ≤ c.prevStop) :
    ReadsNode source start c node c' := by
  have hli : (Node.mk .params span [.mk (.param false {}) span [.mk (.binding name) span []]]).Laid source :=
    laid_singleParam hfs hla hlt
  simp only [simpleArrow, runs_bind, runs_finish] at h
  obtain ⟨_, c₁, hsi, ⟨isExpression, body⟩, c₂, hb, rfl, rfl⟩ := h
  have hf : isExpression = true → ∃ value, body = [value] ∧ FitsArrow value := by
    rintro rfl
    exact fitsArrow_of_arrowBody hb
  generalize hp : Node.mk .params span [.mk (.param false {}) span [.mk (.binding name) span []]] = list at *
  have hsp : list.span = span := hp ▸ rfl
  have ho : list.outset = span.start := hp ▸ rfl
  have hr : Row source ([list] ++ body) start c'.prevStop := by grind
  have hs' : Boundary source c'.prevStop := by grind
  have hl' : start < c'.prevStop := by grind
  have hl : (Node.mk (.arrow isAsync isExpression) ⟨start, c'.prevStop⟩ ([list] ++ body)).Laid source :=
    laid_arrow hs hs' hl' hr hf
  rw [List.singleton_append] at hl
  grind

/-! ### Assignments -/

@[grind .]
theorem lays_yieldExpression : LaysNode (yieldExpression g) := by
  intro _ _ _ _ _ h hc
  unfold yieldExpression at h
  grind

@[grind →]
theorem reads_conditionalRest {start : ℕ} {test : Node}
    (h : Runs (conditionalRest g start allowReturn test) context c node c') (hc : c.On source)
    (ht : 2 ≤ test.shape.tightness) : Extends source start test c node c' := by
  unfold conditionalRest at h
  grind

@[grind →]
theorem reads_assignmentRest [g.Graded] {start : ℕ} {left : Node}
    (h : Runs (assignmentRest g start allowReturn left) context c node c') (hc : c.On source)
    (ht : 2 ≤ left.shape.tightness) : Extends source start left c node c' := by
  simp only [assignmentRest, runs_bind, runs_tokenKind] at h
  obtain ⟨kind, _, ⟨rfl, rfl⟩, h⟩ := h
  split at h
  case h_2 => split at h <;> grind
  all_goals grind

@[grind →]
theorem reads_identifier (h : Runs identifier context c name c') (hc : c.On source) :
    c'.prevStop = c.token.span.stop ∧ c.token.span.start < c.token.span.stop := by
  rw [identifier, runs_tokenKind_bind] at h
  split at h <;> grind

@[grind .]
theorem lays_asyncArrow [g.Graded] (allowReturn : Bool) : LaysNode (asyncArrow g allowReturn) := by
  intro _ _ _ _ _ h hc
  unfold asyncArrow at h
  grind

@[grind .]
theorem lays_assignment [g.Graded] (allowReturn : Bool) : LaysNode (assignment g allowReturn) := by
  intro _ _ _ _ _ h hc
  rw [assignment, runs_startOffset_bind, runs_read_bind] at h
  simp only [runs_bind, runs_ite] at h
  obtain ⟨yields, c₁, hy, h⟩ := h
  split at h
  · grind
  · obtain ⟨arrow, c₂, ha, h⟩ := h
    cases arrow <;> grind

@[grind .]
theorem lays_expression : LaysNode (expression g) := by
  intro source _ _ _ _ h hc
  simp only [expression, runs_bind, runs_startOffset, runs_sees, runs_ite] at h
  obtain ⟨start, c₁, ⟨rfl, rfl⟩, first, c₂, hf, more, c₃, ⟨rfl, -⟩, h⟩ := h
  have hr := Grammar.Sound.assignment true hf hc
  split at h
  · obtain ⟨parts, c₄, hp, h⟩ := h
    have ha : ReadsReverse source c₁.token.span.start c₁ parts c₄ :=
      reads_separated (Grammar.Sound.assignment true) hp (by grind)
    clear hf hp
    grind
  · grind

end Polyview.Script
