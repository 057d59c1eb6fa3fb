import Polyview.Proofs.Script.Reading.Expression

/-! # What statements read -/

namespace Polyview.Script

variable {g : Grammar} [g.Sound] {source : List Char} {context : Context} {c c' : Cursor} {node : Node}
  {nodes : List Node} {start : ℕ} {found : Option Node} {lo : ℕ} {marks : List Node} {mods : Modifiers}

/-! ### Variables -/

@[grind .]
theorem advances_definiteMark (target : Node) : Advances (definiteMark target) := by
  intro _ _ _ _ _ h hc
  unfold definiteMark at h
  grind

@[grind .]
theorem lays_declarator (kind : VarKind) (inLoop : Bool) : LaysNode (declarator g kind inLoop) := by
  intro _ _ _ _ _ h hc
  unfold declarator at h
  grind

@[grind .]
theorem stays_seesLet (inLoop : Bool) : Stays (seesLet inLoop) := by
  intro _ _ _ _ h
  unfold seesLet at h
  grind

@[grind .]
theorem stays_seesUsing : Stays seesUsing := by
  intro _ _ _ _ h
  unfold seesUsing at h
  grind

theorem runs_varKind? {inLoop : Bool} {kind : Option VarKind} (h : Runs (varKind? inLoop) context c kind c') :
    c' = c := by
  rw [varKind?, runs_keyword?_bind] at h
  split at h <;> grind

grind_pattern runs_varKind? => Runs (varKind? inLoop) context c kind c'

@[grind .]
theorem lays_declarators (kind : VarKind) (inLoop : Bool) : Lays id (declarators g kind inLoop) := by
  intro _ _ _ _ _ h hc
  unfold declarators at h
  grind

@[grind .]
theorem moves_declarators (kind : VarKind) (inLoop : Bool) : Moves (declarators g kind inLoop) := by
  intro _ _ _ _ _ h hc
  unfold declarators at h
  grind

@[grind →]
theorem reads_varStatement {kind : VarKind} (h : Runs (varStatement g start kind) context c node c')
    (hc : c.On source) : Grows source start [] c node c' := by
  unfold varStatement at h
  grind

/-! ### Type declarations -/

@[grind .]
theorem stays_nextIsNameOnLine : Stays nextIsNameOnLine := stays_nextIs _

@[grind .]
theorem lays_interfaceParent : LaysNode (interfaceParent g) := by
  intro _ _ _ _ _ h hc
  unfold interfaceParent at h
  grind

@[grind .]
theorem lays_interfaceParents : Lays id (interfaceParents g) := by
  intro _ _ _ _ _ h hc
  unfold interfaceParents at h
  grind

@[grind →]
theorem reads_interfaceDeclaration (h : Runs (interfaceDeclaration g start) context c node c')
    (hc : c.On source) : Grows source start [] c node c' := by
  unfold interfaceDeclaration at h
  grind

@[grind .]
theorem lays_aliasedType : LaysNode (aliasedType g) := by
  intro _ _ _ _ _ h hc
  unfold aliasedType at h
  grind

@[grind →]
theorem reads_typeAlias (h : Runs (typeAlias g start) context c node c') (hc : c.On source) :
    Grows source start [] c node c' := by
  unfold typeAlias at h
  grind

@[grind .]
theorem lays_enumKey : LaysNode (enumKey g) := by
  intro _ _ _ _ _ h hc
  rw [enumKey, runs_tokenKind_bind] at h
  split at h <;> grind

@[grind .]
theorem lays_enumMember : LaysNode (enumMember g) := by
  intro _ _ _ _ _ h hc
  unfold enumMember at h
  grind

@[grind →]
theorem reads_enumDeclaration {isConst : Bool} (h : Runs (enumDeclaration g start isConst) context c node c')
    (hc : c.On source) : Grows source start [] c node c' := by
  unfold enumDeclaration at h
  grind

@[grind .]
theorem lays_dottedNames : Lays id dottedNames := by
  refine LaysNode.manyUntil (fun source context c node c' h hc => ?_) (stays_not_sees _).advances
  grind

@[grind .]
theorem lays_namespaceBody : LaysNode (namespaceBody g) := by
  intro _ _ _ _ _ h hc
  unfold namespaceBody at h
  grind

@[grind →]
theorem reads_namespaceDeclaration (h : Runs (namespaceDeclaration g start) context c node c')
    (hc : c.On source) : Grows source start [] c node c' := by
  simp only [namespaceDeclaration, runs_bind, runs_read, runs_next, runs_tokenKind] at h
  obtain ⟨_, _, ⟨rfl, rfl⟩, _, c₁, rfl, kind, c₂, ⟨rfl, rfl⟩, h⟩ := h
  split at h <;> grind

/-! ### Declarations -/

@[grind =]
theorem runs_withoutAwait {α : Type} {rule : Parse α} {a : α} : Runs (withoutAwait rule) context c a c' ↔
    Runs rule { context with inAsync := false } c a c' := Iff.rfl

@[grind .]
theorem moves_moduleName : Moves moduleName := by
  intro _ _ _ _ _ h hc
  rw [moduleName, runs_tokenKind_bind] at h
  split at h <;> grind

@[grind →]
theorem reads_importEqualsRest {isTypeOnly : Bool} {name : Node}
    (h : Runs (importEqualsRest start isTypeOnly name) context c node c') (hc : c.On source) :
    Grows source start [name] c node c' := by
  unfold importEqualsRest at h
  grind

@[grind →]
theorem reads_functionDeclaration {isAsync : Bool}
    (h : Runs (functionDeclaration g start mods isAsync) context c node c') (hc : c.On source) :
    Grows source start [] c node c' := by
  unfold functionDeclaration at h
  grind

/-- A declaration that starts at an offset, with decorators that were read from another on: those of a class
are laid out with it. -/
def Declares (source : List Char) (lo start : ℕ) (c : Cursor) (node : Node) (c' : Cursor) : Prop :=
  ReadsLoose source lo c node c' ∧ (lo = start → ReadsNode source start c node c')

theorem declares_classRest {isDeclaration : Bool}
    (h : Runs (classRest g start isDeclaration mods marks) context c node c') (hc : c.On source) (hlo : lo ≤ start)
    (hst : Boundary source start) (hl : start ≤ c.token.span.start) (hm : Row source marks lo c.prevStop)
    (hs : Decorators marks) : Declares source lo start c node c' := by
  refine ⟨(reads_classRest_from h hc hlo hst hl hm hs).1, ?_⟩
  rintro rfl
  exact reads_classRest h hc hs hst hl hm

attribute [grind] Declares

/-- What a rule finds that may find a declaration. -/
@[grind]
def FindsDeclaration (source : List Char) (lo start : ℕ) (c : Cursor) (found : Option Node) (c' : Cursor) : Prop :=
  (found = none → c' = c) ∧ ∀ node, found = some node → Declares source lo start c node c'

theorem finds_declaration? (h : Runs (declaration? g start mods marks) context c found c') (hc : c.On source)
    (hl : lo ≤ start) (hst : Boundary source start) (hle : start ≤ c.token.span.start)
    (hm : Row source marks lo c.prevStop) (hs : Decorators marks) : FindsDeclaration source lo start c found c' := by
  rw [declaration?, runs_keyword?_bind] at h
  split at h
  case h_1 =>
    simp only [runs_bind, runs_pure] at h
    obtain ⟨node, c₁, hr, rfl, rfl⟩ := h
    have := declares_classRest hr hc hl hst hle hm hs
    grind
  case h_2 =>
    simp only [runs_bind, runs_ite, runs_nextIs, runs_next, runs_pure, runs_withoutAwait] at h
    obtain ⟨isClass, c₁, ⟨rfl, hcl⟩, h⟩ := h
    split at h
    · obtain ⟨_, c₂, rfl, node, c₃, hr, rfl, rfl⟩ := h
      have hm' : Row source marks lo c₁.next.prevStop := by grind
      have := declares_classRest hr hc.next hl hst (by grind) hm' hs
      grind
    · grind
  case h_13 =>
    rw [runs_bind] at h
    obtain ⟨kind, c₁, hk, h⟩ := h
    split at h <;> grind
  all_goals grind

theorem finds_anyDeclaration? (h : Runs (anyDeclaration? g start marks) context c found c') (hc : c.On source)
    (hl : lo ≤ start) (hst : Boundary source start) (hle : start ≤ c.token.span.start)
    (hm : Row source marks lo c.prevStop) (hs : Decorators marks) : FindsDeclaration source lo start c found c' := by
  simp only [anyDeclaration?, runs_bind, runs_ite] at h
  obtain ⟨declared, c₁, hd, starts, c₂, hsr, h⟩ := h
  have hsa : c₁ = c ∧ c₂ = c := by grind
  obtain ⟨rfl, rfl⟩ := hsa
  split at h
  · obtain ⟨_, c₃, hn, node, c₄, hr, h⟩ := h
    obtain rfl := runs_next.mp hn
    have hm' : Row source marks lo c₂.next.prevStop := by grind
    have hf := finds_declaration? hr hc.next hl hst (by grind) hm'
      hs
    split at h <;> grind
  · exact finds_declaration? h hc hl hst hle hm hs

/-! ### Control flow -/

@[grind .]
theorem lays_substatement : LaysStatement (substatement g) := by
  intro _ _ _ _ _ h hc
  unfold substatement at h
  grind

@[grind .]
theorem lays_block : LaysNode (block g) := by
  intro _ _ _ _ _ h hc
  unfold block at h
  grind

@[grind .]
theorem lays_condition : LaysNode (condition g) := by
  intro _ _ _ _ _ h hc
  unfold condition at h
  grind

@[grind →]
theorem reads_ifStatement (h : Runs (ifStatement g start) context c node c') (hc : c.On source) :
    Grows source start [] c node c' := by
  unfold ifStatement at h
  grind

@[grind →]
theorem reads_doStatement (h : Runs (doStatement g start) context c node c') (hc : c.On source) :
    Grows source start [] c node c' := by
  unfold doStatement at h
  grind

@[grind →]
theorem reads_whileStatement (h : Runs (whileStatement g start) context c node c') (hc : c.On source) :
    Grows source start [] c node c' := by
  unfold whileStatement at h
  grind

@[grind →]
theorem reads_forEachRest {isAwait : Bool} {target : Node}
    (h : Runs (forEachRest g start isAwait target) context c node c') (hc : c.On source) :
    Grows source start [target] c node c' := by
  unfold forEachRest at h
  grind

@[grind →]
theorem reads_forRest {isAwait : Bool} {first : List Node}
    (h : Runs (forRest g start isAwait first) context c node c') (hc : c.On source) :
    Grows source start first c node c' := by
  unfold forRest at h
  grind

@[grind .]
theorem stays_seesForEach : Stays seesForEach := by
  intro _ _ _ _ h
  unfold seesForEach at h
  grind

theorem reads_jumpStatement {shape : Option String → Shape}
    (h : Runs (jumpStatement start shape) context c node c') (hc : c.On source)
    (hw : c.token.kind.isSolid) (hs : ∀ label, (shape label).isPlain = true) :
    Grows source start [] c node c' := by
  unfold jumpStatement at h
  grind

@[grind →]
theorem reads_returnStatement (h : Runs (returnStatement g start) context c node c') (hc : c.On source)
    (hw : c.token.kind.isSolid) : Grows source start [] c node c' := by
  unfold returnStatement at h
  grind

@[grind →]
theorem reads_throwStatement (h : Runs (throwStatement g start) context c node c') (hc : c.On source) :
    Grows source start [] c node c' := by
  unfold throwStatement at h
  grind

@[grind →]
theorem reads_forStatement (h : Runs (forStatement g start) context c node c') (hc : c.On source) :
    Grows source start [] c node c' := by
  simp only [forStatement, runs_bind, runs_ite, runs_next, runs_read, runs_flawIf, runs_startOffset] at h
  obtain ⟨_, c₁, rfl, _, c₂, ⟨rfl, rfl⟩, isAwait, c₃, ha, _, c₄, rfl, _, c₅, ho, headStart, c₆, hh,
    empty, c₇, hem, h⟩ := h
  split at h
  · grind
  · obtain ⟨kind, c₈, hk, h⟩ := h
    split at h
    · simp only [runs_bind, runs_withReader, runs_ite, runs_finish, runs_flawIf] at h
      obtain ⟨parts, c₉, hp, declared, c₁₀, ⟨rfl, rfl⟩, each, c₁₁, he, h⟩ := h
      split at h <;> grind
    · simp only [runs_bind, runs_withReader, runs_ite] at h
      obtain ⟨value, c₉, hv, each, c₁₀, he, h⟩ := h
      split at h
      · obtain ⟨ofWord, c₁₁, hof, _, c₁₂, hf, h⟩ := h
        split at h <;> grind
      · grind

@[grind .]
theorem lays_switchCase : LaysNode (switchCase g) := by
  intro source context c _ c' h hc
  have hs : Advances (do return (← sees .rbrace) || (← seesWord .kwCase) || (← seesWord .kwDefault)) := by
    intro source context c yes c' h hc
    grind
  unfold switchCase at h
  grind

@[grind →]
theorem reads_switchStatement (h : Runs (switchStatement g start) context c node c') (hc : c.On source) :
    Grows source start [] c node c' := by
  unfold switchStatement at h
  grind

@[grind .]
theorem lays_catchClause : LaysNode (catchClause g) := by
  intro _ _ _ _ _ h hc
  unfold catchClause at h
  grind

@[grind →]
theorem reads_tryStatement (h : Runs (tryStatement g start) context c node c') (hc : c.On source) :
    Grows source start [] c node c' := by
  unfold tryStatement at h
  grind

@[grind →]
theorem reads_expressionStatement (h : Runs (expressionStatement g start) context c node c')
    (hc : c.On source) : Grows source start [] c node c' := by
  simp only [expressionStatement, runs_bind] at h
  obtain ⟨value, c₁, hv, colon, c₂, hco, h⟩ := h
  split at h <;> grind

/-! ### Statements -/

theorem finds_keywordStatement? (h : Runs (keywordStatement? g start) context c found c') (hc : c.On source)
    (hs : Boundary source start) (hl : start ≤ c.token.span.start) :
    (found = none → c' = c) ∧ ∀ node, found = some node → ReadsNode source start c node c' := by
  rw [keywordStatement?, runs_keyword?_bind] at h
  split at h
  case h_5 hw | h_6 hw =>
    simp only [runs_bind, runs_pure] at h
    obtain ⟨node, c₁, hr, rfl, rfl⟩ := h
    have := reads_jumpStatement hr hc (TokenKind.isSolid_of_keyword? hw) (fun _ => rfl)
    grind
  all_goals grind

theorem lays_statement : LaysNode (statement g) := by
  intro _ _ _ _ _ h hc
  rw [statement, runs_startOffset_bind, runs_tokenKind_bind] at h
  split at h
  · grind
  · grind
  · rw [runs_bind] at h
    obtain ⟨marks, c₁, hm, h⟩ := h
    have hr := lays_decorators hm hc
    rw [runs_bind] at h
    obtain ⟨found, c₂, hf, h⟩ := h
    have hde := finds_anyDeclaration? hf hr.leads.on (Nat.le_refl _) hc.start_boundary
      hr.leads.start hr.row
    split at h
    · split at h <;> grind
    · grind
  · rw [runs_bind] at h
    obtain ⟨found, c₁, hf, h⟩ := h
    have hw := finds_keywordStatement? hf hc hc.start_boundary (Nat.le_refl _)
    split at h
    · grind
    · obtain rfl := hw.1 rfl
      rw [runs_bind] at h
      obtain ⟨declared, c₂, hd, h⟩ := h
      have hde := finds_anyDeclaration? hd hc (Nat.le_refl _) hc.start_boundary
        (Nat.le_refl _) (row_nil.mpr trivial)
      split at h <;> grind

end Polyview.Script
