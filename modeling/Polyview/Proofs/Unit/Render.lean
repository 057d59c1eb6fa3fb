import Polyview.Proofs.Member.Edits
import Polyview.Proofs.Unit.MemberOrder
import Polyview.Unit.Extraction

/-! # The render method, checked and lowered

Validation looks for the render method by what its key says, lowering by how the key is written: a quoted key says
`render` as well, but only a key that is a plain name is found. In a class that is read from a text, the method that
validation approves returns markup, and lowering takes this markup exactly if the key of the method is not quoted
(`approved_operand_taken_iff`). A quoted render method is passed over, and what stands behind it decides. -/

namespace Polyview

open List Script Node

variable {source : List Char} {table : MarkerTable} {comments : List Comment} {component : String}
  {element function operand : Node} {elements before after : List Node}

/-! ### Parts of a member -/

/-- The parts of a member without its decorators. -/
def ownParts (element : Node) : List Node := element.parts.filter fun part => !isDecorator part

/-- Whether the key of a member is a plain name. -/
def isNamed (element : Node) : Bool :=
  match (ownParts element).head? with
  | some (.mk (.name _) _ _) => true
  | _ => false

/-- Whether the key of a member is a string. -/
def isQuoted (element : Node) : Bool :=
  match (ownParts element).head? with
  | some (.mk (.string _ _) _ _) => true
  | _ => false

/-- The operand of a `return` that is the only statement. -/
def returnValue? : List Node → Option Node
  | [.mk .returnStatement _ [value]] => some value
  | _ => none

/-- The operand of a `return` that is all that the body of a function holds. -/
def returnedBy? (function : Node) : Option Node :=
  (function.parts.find? fun part => part.shape == .body).bind fun body => returnValue? body.parts

/-- What the function of a member returns. -/
def operandOf? (element : Node) : Option Node := (ownParts element).getLast?.bind returnedBy?

/-- Lowering a class body stops for want of a template: no operand is found, or one that is no markup. -/
def StopsAtRender (source : List Char) (elements : List Node) : Prop :=
  renderOperand? elements = none ∨
    ∃ operand, renderOperand? elements = some operand ∧ markupOf? source operand = .ok none

/-- A component is not made of a class body at which lowering stops. -/
theorem componentOf_of_stopsAtRender {marked : MarkedClass} {options : ComponentOptions} {roles : List MemberRole}
    (items : List UnitItem) (ho : componentOptions source marked.decorator = .ok options)
    (hv : validateMembers component ((classElements marked.node).map (classMember source table comments)) = .ok ())
    (hr : ((classElements marked.node).map (classMember source table comments)).mapM roleOf = .ok roles)
    (h : StopsAtRender source (classElements marked.node)) :
    ∃ error, componentOf source table comments marked component items = .error error ∧
      error.code ∈ [Code.malformedRender, .nestedMarkup] := by
  simp only [componentOf, ho, hv, hr, bind, Except.bind]
  rcases h with h | ⟨operand, h, hm⟩
  · rw [h]
    exact ⟨_, rfl, .head _⟩
  · simp only [h, rootOf, hm, bind, Except.bind]
    exact ⟨_, rfl, .tail _ (.head _)⟩

theorem isQuoted_of_isNamed (h : isNamed element) : isQuoted element = false := by
  unfold isNamed at h
  unfold isQuoted
  split at h
  · next heq => rw [heq]
  · cases h

theorem filter_of_endsInFunction {nodes : List Node} (h : EndsInFunction nodes) :
    ∃ key function, nodes.filter (fun part => !isDecorator part) = [key, function] := by
  obtain ⟨marks, key, function, rfl, hm, hk, hf⟩ := h
  refine ⟨key, function, ?_⟩
  have hn : marks.filter (fun part => !isDecorator part) = [] :=
    filter_eq_nil_iff.mpr fun part hp => by simp [isDecorator, hm part hp]
  rw [filter_append, hn]
  simp [isDecorator, hk, hf]

theorem mem_nodes_of_returnedBy? (h : returnedBy? function = some operand) : operand ∈ function.nodes := by
  obtain ⟨body, hb, h⟩ := Option.bind_eq_some_iff.mp h
  have hm : body ∈ function.nodes := part_mem_nodes (mem_of_find?_eq_some hb)
  refine nodes_subset hm ?_
  obtain ⟨shape, span, statements⟩ := body
  unfold returnValue? at h
  split at h
  · next heq =>
    cases h
    rw [Node.parts] at heq
    simp [heq, Node.nodes, nodesOf, self_mem_nodes]
  · cases h

theorem mem_nodes_of_operandOf? (h : operandOf? element = some operand) : operand ∈ element.nodes := by
  obtain ⟨function, hl, h⟩ := Option.bind_eq_some_iff.mp h
  have hm : function ∈ element.parts := mem_of_mem_filter (mem_of_getLast? hl)
  exact nodes_subset (part_mem_nodes hm) (mem_nodes_of_returnedBy? h)

/-! ### What validation approves -/

/-- The member that validation takes for the render method is sound. -/
theorem exists_approved {members : List ClassMember} (h : validateMembers component members = .ok ()) :
    (∀ m ∈ members, checkMemberKind m = none) ∧
      ∃ before m after, members = before ++ m :: after ∧ (∀ other ∈ before, ¬ other.IsRender) ∧ m.IsRender ∧
        m.IsSound := by
  unfold validateMembers at h
  split at h
  · cases h
  next hke =>
  have hk : ∀ m ∈ members, checkMemberKind m = none := by
    intro m hm
    have hno := findSome?_eq_none_iff.mp hke checkMemberKind (by simp [memberChecks])
    simpa using findSome?_eq_none_iff.mp hno m hm
  refine ⟨hk, ?_⟩
  unfold checkRender at h
  split at h
  · cases h
  next m hf =>
  obtain ⟨hr, before, after, hmb, hb⟩ := find?_eq_some_iff_append.mp hf
  refine ⟨before, m, after, hmb, ?_, by simpa [ClassMember.IsRender] using hr, ?_⟩
  · intro other ho
    rintro ⟨hk, hn⟩
    simpa [hk, hn] using hb other ho
  · dsimp only at h
    split at h
    · cases h
    · next hp =>
      split at hp
      · cases hp
      · next parts hpt => exact ⟨parts, hpt, hp⟩

theorem returnsMarkup_of_renderProblem? {parts : FunctionParts} (h : renderProblem? parts = none) :
    parts.returnsMarkup := by
  unfold renderProblem? at h
  split_ifs at h with _ _ _ hm
  simpa using hm

theorem returnsMarkup_withBody {parts : FunctionParts} (span : Span) (body : Node) (h : parts.returnsMarkup = false) :
    (parts.withBody source span body).returnsMarkup =
      (returnValue? body.parts).any fun value => isMarkup value.unwrapParens := by
  obtain ⟨shape, bodySpan, statements⟩ := body
  rw [Node.parts]
  unfold FunctionParts.withBody
  split
  · next heq =>
    rw [Node.parts] at heq
    rw [heq]
    rfl
  · next heq =>
    rw [Node.parts] at heq
    rw [heq]
    exact h
  · next hv _ =>
    have hn : returnValue? statements = none := by
      unfold returnValue?
      split
      · exact absurd rfl (hv _ _)
      · rfl
    rw [hn]
    exact h

/-- What a function tells of its return value is told of the operand of its only `return`. -/
theorem returnsMarkup_functionParts (source : List Char) (function : Node) :
    (functionParts source function).returnsMarkup =
      (returnedBy? function).any fun value => isMarkup value.unwrapParens := by
  unfold functionParts returnedBy?
  cases hb : function.parts.find? fun part => part.shape == .body with
  | none => rfl
  | some body => exact returnsMarkup_withBody _ body rfl

/-! ### What lowering finds -/

theorem renderOperand?_cons (element : Node) (rest : List Node) :
    renderOperand? (element :: rest) = (renderOperand? [element]).or (renderOperand? rest) := by
  simp only [renderOperand?, findSome?_cons, findSome?_nil]
  split <;> simp_all

/-- What is found in a member is what a render method with a plain name returns. -/
theorem of_renderOperand?_singleton (h : renderOperand? [element] = some operand) :
    (∀ source table comments, (classMember source table comments element).IsRender) ∧ isNamed element ∧
      operandOf? element = some operand := by
  simp only [renderOperand?, findSome?_cons, findSome?_nil] at h
  split at h
  next value hv =>
    cases h
    split at hv
    next kind optional span parts =>
      split at hv
      next name nameSpan nameParts function hp =>
        split at hv
        next hn =>
          have ho : ownParts (.mk (.method .method kind optional) span parts) =
              [.mk (.name name) nameSpan nameParts, function] := hp
          refine ⟨fun source table comments => ⟨rfl, ?_⟩, by simp [isNamed, ho], ?_⟩
          · simpa [classMember, memberShape, Node.shape, Node.parts, hp, memberKey] using hn
          · rw [operandOf?, ho]
            simp only [getLast?_cons_cons, getLast?_singleton, Option.bind_some, returnedBy?]
            split at hv
            next hb =>
              rw [hb]
              exact hv
            next => cases hv
        next => cases hv
      next => cases hv
    next => cases hv
  next => cases h

theorem shape_of_isRender (h : (classMember source table comments element).IsRender) :
    ∃ modifiers optional span parts, element = .mk (.method .method modifiers optional) span parts := by
  obtain ⟨shape, span, parts⟩ := element
  have hk : (memberShape source (.mk shape span parts)).kind = .method := h.1
  unfold memberShape at hk
  simp only [Node.shape] at hk
  split at hk
  next => split at hk <;> cases hk
  next kind modifiers optional =>
    cases kind
    case method => exact ⟨modifiers, optional, span, parts, rfl⟩
    all_goals cases hk
  next => cases hk
  next => cases hk

theorem ownParts_of_isRender (hl : element.Laid source) (h : (classMember source table comments element).IsRender) :
    ∃ key function, ownParts element = [key, function] ∧ (memberKey source key).name = renderName ∧
      (classMember source table comments element).hasComputedKey = (memberKey source key).isComputed ∧
      (classMember source table comments element).hasPrivateName = (memberKey source key).isPrivate ∧
      (classMember source table comments element).function = some (functionParts source function) := by
  obtain ⟨modifiers, optional, span, parts, rfl⟩ := shape_of_isRender h
  obtain ⟨key, function, hp⟩ := filter_of_endsInFunction ((laid_mk_of_isFramed rfl).mp hl).2.2.2.1
  have hn := h.2
  simp only [classMember, memberShape, Node.shape, Node.parts, hp] at hn ⊢
  exact ⟨key, function, hp, hn, rfl, rfl, rfl⟩

/-- A render method has its operand taken if its key is a plain name. -/
theorem renderOperand?_of_isNamed (hl : element.Laid source)
    (h : (classMember source table comments element).IsRender) (hn : isNamed element) :
    renderOperand? [element] = operandOf? element := by
  obtain ⟨key, function, hp, hna, -⟩ := ownParts_of_isRender hl h
  obtain ⟨modifiers, optional, span, parts, rfl⟩ := shape_of_isRender h
  rw [operandOf?, hp]
  simp only [isNamed, hp, head?_cons] at hn
  split at hn
  next name nameSpan nameParts heq =>
    cases heq
    have hf : parts.filter (fun part => !isDecorator part) = [.mk (.name name) nameSpan nameParts, function] := hp
    have hr : (name == renderName) := beq_iff_eq.mpr hna
    simp only [renderOperand?, findSome?_cons, findSome?_nil, hf, hr, if_true, returnedBy?,
      getLast?_cons_cons, getLast?_singleton, Option.bind_some]
    cases hb : function.parts.find? fun part => part.shape == .body with
    | none => rfl
    | some body =>
      obtain ⟨shape, span', statements⟩ := body
      simp only [Option.bind_some, Node.parts]
      unfold returnValue?
      split <;> split <;> simp_all
  next => cases hn

/-- The key of a render method of a sound kind is a plain name or a string. -/
theorem isNamed_or_isQuoted (hl : element.Laid source) (h : (classMember source table comments element).IsRender)
    (hk : checkMemberKind (classMember source table comments element) = none) :
    isNamed element ∨ isQuoted element = true := by
  obtain ⟨key, function, hpt, -, hc, hp, -⟩ := ownParts_of_isRender hl h
  have hpl : (memberKey source key).isComputed = false ∧ (memberKey source key).isPrivate = false := by
    rw [← hc, ← hp]
    unfold checkMemberKind at hk
    grind
  obtain ⟨hpl, hp⟩ := hpl
  simp only [isNamed, isQuoted, hpt, head?_cons]
  unfold memberKey at hpl hp
  split at hpl
  next => simp
  next => simp at hp
  next => simp
  all_goals cases hpl

/-! ### Markup -/

theorem markupOf?_unwrapParens (source : List Char) (node : Node) :
    markupOf? source node.unwrapParens = markupOf? source node := by
  fun_induction unwrapParens node with
  | case1 span inner ih => rw [ih, markupOf?]
  | case2 node hp => rfl

/-- Lowering does not refuse markup as a root. -/
theorem markupOf?_ne_none {node : Node} (hl : node.Laid source) (h : isMarkup node) :
    markupOf? source node ≠ .ok none := by
  obtain ⟨shape, span, parts⟩ := node
  intro hn
  rcases (by simpa [isMarkup, Node.shape] using h : shape = .jsxElement ∨ shape = .jsxFragment) with rfl | rfl
  · obtain ⟨selfClosing, tagSpan, name, items, rest, rfl, -⟩ := ((laid_mk_of_isFramed rfl).mp hl).2.2.2.1
    rw [markupOf?] at hn
    obtain ⟨tag, -, hn⟩ := bind_eq_ok.mp hn
    obtain ⟨attributes, -, hn⟩ := bind_eq_ok.mp hn
    split at hn
    · cases hn
    · obtain ⟨children, -, hn⟩ := bind_eq_ok.mp hn
      cases hn
  · rw [markupOf?] at hn
    obtain ⟨children, -, hn⟩ := bind_eq_ok.mp hn
    cases hn

theorem laid_unwrapParens {node : Node} (h : node.Laid source) : node.unwrapParens.Laid source := by
  fun_induction unwrapParens node with
  | case1 span inner ih => exact ih (h.row_parts.laid_of_mem (mem_singleton_self inner))
  | case2 node hp => exact h

/-! ### Operands of different members -/

theorem within_of_mem_nodes {root node : Node} (h : root.Laid source) (hm : node ∈ root.nodes) :
    root.outset ≤ node.outset ∧ node.span.stop ≤ root.span.stop := by
  induction root using Node.induction with
  | h shape span parts ih =>
    rw [Node.nodes, mem_cons, mem_nodesOf_iff] at hm
    rcases hm with rfl | ⟨part, hp, hm⟩
    · exact ⟨Nat.le_refl _, Nat.le_refl _⟩
    · have hr := h.row_parts
      obtain ⟨hst, hs⟩ := ih part hp (hr.laid_of_mem hp) hm
      exact ⟨Nat.le_trans (hr.le_outset_of_mem hp) hst, Nat.le_trans hs (hr.stop_le hp)⟩

theorem wide_of_isMarkup {node : Node} (hl : node.Laid source) (h : isMarkup node.unwrapParens) :
    node.span.start < node.span.stop := by
  obtain ⟨shape, span, parts⟩ := node
  have hs : shape.mayBeEmpty = false := by
    cases shape
    case jsxEmpty => cases h
    case program => cases h
    all_goals rfl
  exact ((laid_mk_of_not_mayBeEmpty hs).mp hl).2.2.1

/-- What a member returns is not found in the members behind it. -/
theorem renderOperand?_ne_of_row {lo hi : ℕ} (hro : Row source (element :: after) lo hi)
    (hop : operandOf? element = some operand) (hmu : isMarkup operand.unwrapParens) :
    renderOperand? after ≠ some operand := by
  intro hf
  obtain ⟨-, -, hla, ha⟩ := row_cons.mp hro
  obtain ⟨other, hm, ho⟩ : ∃ other ∈ after, renderOperand? [other] = some operand := by
    obtain ⟨other, hm, ho⟩ := exists_of_findSome?_eq_some hf
    exact ⟨other, hm, by simpa [renderOperand?] using ho⟩
  have hr := (of_renderOperand?_singleton ho).2.2
  have hl := ha.laid_of_mem hm
  have hin := within_of_mem_nodes hla (mem_nodes_of_operandOf? hop)
  have hio := within_of_mem_nodes hl (mem_nodes_of_operandOf? hr)
  have hb := ha.le_outset_of_mem hm
  have hw := wide_of_isMarkup (hla.of_mem_nodes (mem_nodes_of_operandOf? hop)) hmu
  have := outset_le operand
  omega

/-! ### The operand of the approved method -/

theorem renderOperand?_append_of_not_isRender
    (h : ∀ element ∈ before, ¬ (classMember source table comments element).IsRender) (after : List Node) :
    renderOperand? (before ++ after) = renderOperand? after := by
  induction before with
  | nil => rfl
  | cons first rest ih =>
    rw [forall_mem_cons] at h
    have hn : renderOperand? [first] = none := by
      cases hf : renderOperand? [first] with
      | none => rfl
      | some value => exact absurd ((of_renderOperand?_singleton hf).1 source table comments) h.1
    rw [cons_append, renderOperand?_cons, hn, ih h.2]
    rfl

/-- The members of a class in a script are laid out one behind the other. -/
theorem row_classElements {tree : Tree} {node : Node} (hp : parse? true source = some tree)
    (hn : node ∈ tree.root.nodes) : ∃ lo hi, Row source (classElements node) lo hi := by
  have hl := (parse?_laid hp).of_mem_nodes hn
  unfold classElements
  split
  · next body hb => exact ⟨_, _, (hl.row_parts.laid_of_mem (mem_of_find?_eq_some hb)).row_parts⟩
  · exact ⟨0, 0, row_nil.mpr trivial⟩

/-- A member that is approved by validation: the first render method of the class. It returns markup. -/
structure Approved (source : List Char) (table : MarkerTable) (comments : List Comment) (elements before : List Node)
    (element : Node) (after : List Node) (operand : Node) : Prop where
  split : elements = before ++ element :: after
  first : ∀ other ∈ before, ¬ (classMember source table comments other).IsRender
  render : (classMember source table comments element).IsRender
  key : isNamed element = true ∨ isQuoted element = true
  returned : operandOf? element = some operand
  markup : isMarkup operand.unwrapParens = true

namespace Approved

variable {lo hi : ℕ}

/-- Validation approves a member, if it accepts the class. -/
theorem of_validateMembers (hro : Row source elements lo hi)
    (hv : validateMembers component (elements.map (classMember source table comments)) = .ok ()) :
    ∃ before element after operand, Approved source table comments elements before element after operand := by
  obtain ⟨hk, firsts, m, others, hm, hf, hrn, parts, hfu, hp⟩ := exists_approved hv
  obtain ⟨before, rest, rfl, rfl, hre⟩ := map_eq_append_iff.mp hm
  obtain ⟨element, after, rfl, rfl, rfl⟩ := map_eq_cons_iff.mp hre
  have hl : element.Laid source := (row_cons.mp (row_append.mp hro).2).2.2.1
  obtain ⟨key, function, how, -, -, -, hpt⟩ := ownParts_of_isRender hl hrn
  -- the function that validation judged is that of the element
  have hs := returnsMarkup_of_renderProblem? hp
  rw [← Option.some.inj (hpt.symm.trans hfu), returnsMarkup_functionParts, Option.any_eq_true] at hs
  obtain ⟨operand, hr, hmu⟩ := hs
  refine ⟨before, element, after, operand, rfl, ?_, hrn, ?_, ?_, hmu⟩
  · exact fun other ho => hf _ (mem_map_of_mem ho)
  · exact isNamed_or_isQuoted hl hrn (hk _ (by simp))
  · rw [operandOf?, how]
    exact hr

variable (h : Approved source table comments elements before element after operand)
include h

/-- Members in front of the approved one play no part in lowering. -/
theorem renderOperand?_eq : renderOperand? elements = (renderOperand? [element]).or (renderOperand? after) := by
  rw [h.split, renderOperand?_append_of_not_isRender h.first, renderOperand?_cons]

theorem row (hr : Row source elements lo hi) : ∃ lo, Row source (element :: after) lo hi := by
  rw [h.split] at hr
  exact ⟨_, (row_append.mp hr).2⟩

/-- A plain name as a key: the operand of the approved member is taken. -/
theorem renderOperand?_of_isNamed (hr : Row source elements lo hi) (hn : isNamed element) :
    renderOperand? elements = some operand := by
  obtain ⟨lo, hr⟩ := h.row hr
  rw [h.renderOperand?_eq, Polyview.renderOperand?_of_isNamed (row_cons.mp hr).2.2.1 h.render hn, h.returned]
  rfl

/-- A string as a key: the approved member is passed over. -/
theorem renderOperand?_of_isQuoted (hq : isQuoted element) :
    renderOperand? elements = renderOperand? after := by
  have hno : renderOperand? [element] = none := by
    cases hf : renderOperand? [element] with
    | none => rfl
    | some value =>
      have hn := (of_renderOperand?_singleton hf).2.1
      rw [isQuoted_of_isNamed hn] at hq
      cases hq
  rw [h.renderOperand?_eq, hno, Option.none_or]

theorem taken_iff (hr : Row source elements lo hi) :
    renderOperand? elements = some operand ↔ isNamed element = true := by
  refine ⟨fun ht => h.key.resolve_right fun hq => ?_, h.renderOperand?_of_isNamed hr⟩
  obtain ⟨lo, hr'⟩ := h.row hr
  rw [h.renderOperand?_of_isQuoted hq] at ht
  exact renderOperand?_ne_of_row hr' h.returned h.markup ht

theorem stops_iff (hr : Row source elements lo hi) :
    StopsAtRender source elements ↔ isQuoted element ∧ StopsAtRender source after := by
  rcases h.key with hn | hq
  · obtain ⟨_, hr'⟩ := h.row hr
    have hl : operand.Laid source := (row_cons.mp hr').2.2.1.of_mem_nodes (mem_nodes_of_operandOf? h.returned)
    have hro : markupOf? source operand ≠ .ok none := by
      rw [← markupOf?_unwrapParens]
      exact markupOf?_ne_none (laid_unwrapParens hl) h.markup
    simp [StopsAtRender, h.renderOperand?_of_isNamed hr hn, isQuoted_of_isNamed hn, hro]
  · simp [StopsAtRender, h.renderOperand?_of_isQuoted hq, hq]

end Approved

/-- **What validation approves is what lowering takes** exactly if the key of the approved render method is a plain name.
Then lowering does not stop for want of a template. If the key is a string, lowering goes on with the members behind the
method, and stops if it does so there; then there is no component. -/
theorem approved_operand_taken_iff {tree : Tree} {node : Node} (hparse : parse? true source = some tree)
    (hnode : node ∈ tree.root.nodes)
    (hvalid : validateMembers component ((classElements node).map (classMember source table comments)) = .ok ()) :
    ∃ before element after operand, Approved source table comments (classElements node) before element after operand ∧
        (renderOperand? (classElements node) = some operand ↔ isNamed element = true) ∧
        (StopsAtRender source (classElements node) ↔ isQuoted element = true ∧ StopsAtRender source after) ∧
        ∀ marked options roles items, marked.node = node → componentOptions source marked.decorator = .ok options →
          ((classElements node).map (classMember source table comments)).mapM roleOf = .ok roles →
          StopsAtRender source (classElements node) →
          ∃ error, componentOf source table comments marked component items = .error error ∧
            error.code ∈ [Code.malformedRender, .nestedMarkup] := by
  obtain ⟨lo, hi, hr⟩ := row_classElements hparse hnode
  obtain ⟨before, element, after, operand, h⟩ := Approved.of_validateMembers hr hvalid
  refine ⟨before, element, after, operand, h, h.taken_iff hr, h.stops_iff hr, ?_⟩
  rintro marked options roles items rfl ho hro
  exact componentOf_of_stopsAtRender items ho hvalid hro

/-! ### Two spellings of a key -/

/-- A class with nothing but a render method, which has the given key. -/
def renderClass (key : String) : List Char :=
  ("class Note \x7b " ++ key ++ "() \x7b return (<p>Hi</p>); \x7d \x7d").toList

/-- Whether the members of a class in a script are accepted. -/
def accepts (source : List Char) (tree : Tree) (node : Node) : Bool :=
  (validateMembers "Note"
    ((classElements node).map (classMember source (.ofStatements tree.root.parts) tree.comments))).isOk

theorem exists_accepted {p : List Node → Bool}
    (h : ((parse? true source).any fun tree => tree.root.nodes.any fun node =>
      accepts source tree node && p (classElements node)) = true) :
    ∃ tree node, parse? true source = some tree ∧ node ∈ tree.root.nodes ∧ validateMembers "Note"
        ((classElements node).map (classMember source (.ofStatements tree.root.parts) tree.comments)) = .ok () ∧
      p (classElements node) := by
  obtain ⟨tree, hpa, h⟩ := Option.any_eq_true _ _ |>.mp h
  obtain ⟨node, hn, h⟩ := any_eq_true.mp h
  obtain ⟨ha, hp⟩ := Bool.and_eq_true_iff.mp h
  refine ⟨tree, node, hpa, hn, ?_, hp⟩
  unfold accepts at ha
  cases hv : validateMembers "Note"
      ((classElements node).map (classMember source (.ofStatements tree.root.parts) tree.comments)) with
  | ok done => rfl
  | error error =>
    rw [hv] at ha
    cases ha

theorem plain_render_taken : ∃ tree node operand, parse? true (renderClass "render") = some tree ∧
    node ∈ tree.root.nodes ∧
    validateMembers "Note" ((classElements node).map
      (classMember (renderClass "render") (.ofStatements tree.root.parts) tree.comments)) = .ok () ∧
    renderOperand? (classElements node) = some operand ∧ isMarkup operand.unwrapParens = true ∧
    ¬ StopsAtRender (renderClass "render") (classElements node) := by
  obtain ⟨tree, node, hp, hn, hv, hna⟩ := exists_accepted (p := fun elements => elements.all isNamed)
    (show ((parse? true (renderClass "render")).any _) = true by decide +kernel)
  obtain ⟨before, element, after, operand, ha, ht, hs, -⟩ := approved_operand_taken_iff hp hn hv
  have hpl : isNamed element := all_eq_true.mp hna element (by simp [ha.split])
  refine ⟨tree, node, operand, hp, hn, hv, ht.mpr hpl, ha.markup, fun h => ?_⟩
  have hq := (hs.mp h).1
  rw [isQuoted_of_isNamed hpl] at hq
  cases hq

/-- **A quoted render method** is approved, and yet no operand is found. -/
theorem quoted_render_passed_over : ∃ tree node, parse? true (renderClass "'render'") = some tree ∧
    node ∈ tree.root.nodes ∧
    validateMembers "Note" ((classElements node).map
      (classMember (renderClass "'render'") (.ofStatements tree.root.parts) tree.comments)) = .ok () ∧
    renderOperand? (classElements node) = none := by
  obtain ⟨tree, node, hp, hn, hv, hno⟩ :=
    exists_accepted (p := fun elements => (renderOperand? elements).isNone)
      (show ((parse? true (renderClass "'render'")).any _) = true by decide +kernel)
  exact ⟨tree, node, hp, hn, hv, Option.isNone_iff_eq_none.mp hno⟩

end Polyview
