import Polyview.Proofs.Member.Failure

/-! # What resolving members writes

A resolver gives stand-ins for two kinds of nodes: for an access `this.member`, and for a call that emits the event of
a member, given the text of its arguments with their members resolved. `resolved` says by recursion over a tree what
is written for it: a node with a stand-in is written as that, and any other keeps its own text around what is
written for its parts. `resolveMembers_resolved` says that a snippet is written so.

`ComesTo` tells which places of a tree are written by this recursion. The others lie in an event that is replaced,
outside of its arguments (`comesTo_of_standIn?`).

Only what lies in the snippet is written anew, as for updates. -/

namespace Polyview

open List Script Option

variable {i : ℕ} {part : Node} {place : List ℕ}

section

variable (source : List Char) (r : Resolver)

mutual
/-- What a tree is written as, from its outset on. -/
def resolved (cut : Span) : Node → List Char
  | .mk shape span parts =>
    match standInFor? shape span parts with
    | some text => fitted source cut span text
    | none => resolvedAround cut (Node.mk shape span parts).outset span.stop parts

/-- The text between two offsets around what trees are written as. -/
def resolvedAround (cut : Span) (lo hi : ℕ) : List Node → List Char
  | [] => (Span.mk lo hi).chars source
  | node :: rest =>
    (Span.mk lo node.outset).chars source ++ resolved cut node ++ resolvedAround cut node.span.stop hi rest

/-- What the resolver gives for a node, given its parts. -/
def standInFor? (shape : Shape) (span : Span) : List Node → Option String
  | [] => none
  | first :: rest =>
    match shape with
    | .call _ => (emitter? first).bind fun member => r.emit member (String.ofList (resolvedArguments rest))
    | _ => (thisMember? (.mk shape span (first :: rest))).bind r.read

/-- What the arguments of a call are written as, from the first to the last, given its parts behind the callee. -/
def resolvedArguments : List Node → List Char
  | [] => []
  | .mk .arguments _ parts :: _ =>
    match spanOf? parts with
    | some inner => resolvedAround (wholeOf source) inner.start inner.stop parts
    | none => []
  | _ :: rest => resolvedArguments rest
end

/-- What the resolver gives for a node, if anything. -/
def standIn? (node : Node) : Option String := standInFor? source r node.shape node.span node.parts

/-- The way from a node to another one at a place below it passes no node with a stand-in, except for events that it
passes through their arguments. -/
inductive ComesTo : Node → List ℕ → Node → Prop
  | here {node : Node} : ComesTo node [] node
  | part {node part inner : Node} {i : ℕ} {place : List ℕ} (hkept : standIn? source r node = none)
    (hpart : node.parts[i]? = some part) (h : ComesTo part place inner) : ComesTo node (i :: place) inner
  | argument {node argument inner : Node} {list : Span} {arguments : List Node} {text : String} {i j : ℕ}
    {place : List ℕ} (hevent : standIn? source r node = some text)
    (hlist : node.parts[i]? = some (.mk .arguments list arguments))
    (hfirst : argumentsOf node.parts.tail = arguments) (hargument : arguments[j]? = some argument)
    (h : ComesTo argument place inner) : ComesTo node (i :: j :: place) inner

end

variable {source : List Char} {r : Resolver} {cut : Span} {node inner root : Node} {nodes : List Node} {lo hi : ℕ}
  {member text : String}

/-! ### Stand-ins -/

/-- The member whose event a call emits. -/
def eventOf? : Node → Option String
  | .mk (.call _) _ (callee :: _) => emitter? callee
  | _ => none

theorem resolved_of_some (h : standIn? source r node = some text) :
    resolved source r cut node = fitted source cut node.span text := by
  rcases node with ⟨shape, span, parts⟩
  rw [standIn?, Node.shape, Node.span, Node.parts] at h
  rw [resolved, h]
  rfl

theorem resolved_of_none (h : standIn? source r node = none) :
    resolved source r cut node = resolvedAround source r cut node.outset node.span.stop node.parts := by
  rcases node with ⟨shape, span, parts⟩
  rw [standIn?, Node.shape, Node.span, Node.parts] at h
  rw [resolved, h]
  rfl

theorem standIn?_call {optional : Bool} {span : Span} {callee : Node} {rest : List Node} :
    standIn? source r (.mk (.call optional) span (callee :: rest)) =
      (emitter? callee).bind fun member => r.emit member (String.ofList (resolvedArguments source r rest)) := by
  rw [standIn?, Node.shape, Node.parts, standInFor?]

theorem standIn?_of_not_call
    (h : ∀ optional callee rest, node.shape = .call optional → node.parts = callee :: rest → False) :
    standIn? source r node = (thisMember? node).bind r.read := by
  rcases node with ⟨shape, span, _ | ⟨first, rest⟩⟩
  · rw [standIn?, Node.parts, standInFor?]
    simp [thisMember?]
  · have hc : ∀ optional, shape = .call optional → False := fun optional hs => h optional first rest hs rfl
    rw [standIn?, Node.shape, Node.parts, Node.span, standInFor?.eq_3 _ _ _ _ _ _ hc]

/-- An access is written as what the resolver gives for reading the member. -/
theorem standIn?_of_thisMember? (h : thisMember? node = some member) : standIn? source r node = r.read member := by
  rw [standIn?_of_not_call, h, bind_some]
  intro optional callee rest hs hp
  rcases node with ⟨shape, span, parts⟩
  obtain rfl : shape = .call optional := hs
  cases h

/-- A call that emits an event is written as what the resolver gives for the event and the arguments. -/
theorem standIn?_of_eventOf? (h : eventOf? node = some member) :
    standIn? source r node = r.emit member (String.ofList (resolvedArguments source r node.parts.tail)) := by
  unfold eventOf? at h
  split at h
  · rw [standIn?_call, h, bind_some]
    rfl
  · cases h

/-- A node with a stand-in is an access `this.member`, or the call of an event. -/
theorem standIn?_eq_some (h : standIn? source r node = some text) :
    (∃ member, thisMember? node = some member ∧ r.read member = some text) ∨
      ∃ optional span callee rest member, node = .mk (.call optional) span (callee :: rest) ∧
        emitter? callee = some member ∧
        r.emit member (String.ofList (resolvedArguments source r rest)) = some text := by
  rcases call_or_not node with ⟨optional, span, callee, rest, rfl⟩ | hc
  · rw [standIn?_call] at h
    obtain ⟨member, hm, ht⟩ := bind_eq_some_iff.mp h
    exact .inr ⟨optional, span, callee, rest, member, rfl, hm, ht⟩
  · rw [standIn?_of_not_call hc] at h
    obtain ⟨member, hm, ht⟩ := bind_eq_some_iff.mp h
    exact .inl ⟨member, hm, ht⟩

theorem isReplaceable_of_standIn? (h : standIn? source r node = some text) : node.shape.isReplaceable := by
  rcases standIn?_eq_some h with ⟨member, hm, -⟩ | ⟨optional, span, callee, rest, member, rfl, -, -⟩
  · exact isReplaceable_of_thisMember? hm
  · rfl

/-! ### Edits and texts -/

/-- Splicing the edits that resolve the members of a tree gives what the tree is written as. -/
def Resolves (source : List Char) (r : Resolver) (node : Node) : Prop :=
  ∀ cut, node.Laid source →
    weave source node.outset node.span.stop ((memberEdits source r node).filter fun edit => edit.span.within cut) =
      resolved source r cut node

theorem weave_eq_resolvedAround (hp : ∀ part ∈ nodes, Resolves source r part) (hro : Row source nodes lo hi)
    (hlo : Boundary source lo) (hh : Boundary source hi) (hle : lo ≤ hi) :
    weave source lo hi ((memberEditsOf source r nodes).filter fun edit => edit.span.within cut) =
      resolvedAround source r cut lo hi nodes := by
  induction nodes generalizing lo with
  | nil =>
    rw [memberEditsOf, resolvedAround]
    rfl
  | cons node rest ih =>
    obtain ⟨hst, hs, hl, hr⟩ := row_cons.mp hro
    have hb := hl.boundaries
    have hse := ((memberEdits_treeEdits source r node).separate hl).filter fun edit => edit.span.within cut
    have ht := memberEditsOf_treesEdits fun part (_ : part ∈ rest) => memberEdits_treeEdits source r part
    have hm := (ht.separate hr hs).filter fun edit => edit.span.within cut
    rw [memberEditsOf, filter_append, weave_around hse hm hlo hl.boundary_outset hb.2.1 hh
      hst (by omega) hs, hp node (.head _) cut hl,
      ih (fun part hpa => hp part (.tail _ hpa)) hr hb.2.1 hs, resolvedAround]

/-- The arguments of an event are handed to the resolver as they are written. -/
theorem renderArguments_eq_resolvedArguments {rest : List Node}
    (hp : ∀ part ∈ argumentsOf rest, Resolves source r part) (hr : Row source rest lo hi) :
    renderArguments source (argumentsOf rest) (argumentEdits source r rest) =
      String.ofList (resolvedArguments source r rest) := by
  rw [argumentEdits_eq]
  fun_induction argumentsOf rest generalizing lo with
  | case1 => rw [resolvedArguments]; rfl
  | case2 span parts rest =>
    obtain ⟨-, -, hla, -⟩ := row_cons.mp hr
    obtain ⟨-, -, -, hfl, ha⟩ := (laid_mk_of_isFramed rfl).mp hla
    rw [renderArguments, resolvedArguments]
    cases hi1 : spanOf? parts with
    | none => rfl
    | some inner =>
      obtain ⟨hir, hf, hl, hle⟩ := ha.in_spanOf? hfl hi1
      have ht := memberEditsOf_treesEdits fun part (_ : part ∈ parts) => memberEdits_treeEdits source r part
      dsimp only
      have hin : (wholeOf source).start ≤ inner.start ∧ inner.stop ≤ (wholeOf source).stop :=
        ⟨Nat.zero_le _, hl.le_byteLength⟩
      rw [splice_eq_weave_filter (ht.separate hir hle) hf hl hle hin, weave_eq_resolvedAround hp hir hf hl hle]
  | case3 node rest hn ih =>
    rw [resolvedArguments.eq_3 _ _ _ _ hn]
    exact ih hp (row_cons.mp hr).2.2.2

/-- A node with a stand-in is replaced by it, and the members in the parts of any other are resolved. -/
theorem memberEdits_of_standIn? (hl : node.Laid source)
    (hp : ∀ part ∈ argumentsOf node.parts.tail, Resolves source r part) : memberEdits source r node =
      ((standIn? source r node).map fun text => [Edit.of node.span text]).getD (memberEditsOf source r node.parts) := by
  rcases node with ⟨shape, span, _ | ⟨head, rest⟩⟩
  · rw [memberEdits, standIn?, Node.parts, standInFor?, memberEditsOf]
    rfl
  · have hre := (row_cons.mp hl.row_parts).2.2.2
    have ha : renderArguments source (argumentsOf rest) (argumentEdits source r rest) =
        String.ofList (resolvedArguments source r rest) := renderArguments_eq_resolvedArguments hp hre
    unfold memberEdits
    rw [Node.parts, Node.span, memberEditsOf]
    split
    · next text hr =>
      obtain ⟨member, hm, hr⟩ := bind_eq_some_iff.mp hr
      rw [standIn?_of_thisMember? hm, hr]
      rfl
    · next hr =>
      split
      · next optional member hem =>
        rw [standIn?_call, hem, bind_some, ← ha]
        split
        · next text he => rw [he]; rfl
        · next he => rw [he]; rfl
      · next shape _ _ ho =>
        have hn : standIn? source r (.mk shape span (head :: rest)) = none := by
          by_contra hs
          obtain ⟨text, ht⟩ := ne_none_iff_exists'.mp hs
          rcases standIn?_eq_some ht with ⟨member, hm, ht⟩ |
            ⟨optional, span, callee, rest, member, hc, hm, -⟩
          · rw [hm, bind_some, ht] at hr
            cases hr
          · cases hc
            exact ho optional member rfl hm
        rw [hn]
        rfl

/-- **Edits and texts.** Splicing the edits of a tree gives what the tree is written as. -/
theorem resolves (source : List Char) (r : Resolver) (node : Node) : Resolves source r node := by
  induction node using Node.strongInduction with
  | h node below =>
    have hpt : ∀ part ∈ node.parts, Resolves source r part := by
      intro part hp
      obtain ⟨i, hi⟩ := mem_iff_getElem?.mp hp
      exact below i [] part (Node.at?_cons_eq_some.mpr ⟨part, hi, rfl⟩)
    have ha : ∀ part ∈ argumentsOf node.parts.tail, Resolves source r part := by
      intro part hp
      obtain ⟨arguments, hm, -, hp⟩ := mem_argumentsOf hp
      obtain ⟨i, hi⟩ := mem_iff_getElem?.mp (mem_of_mem_tail hm)
      obtain ⟨j, hj⟩ := mem_iff_getElem?.mp hp
      exact below i [j] part
        (Node.at?_cons_eq_some.mpr ⟨arguments, hi, Node.at?_cons_eq_some.mpr ⟨part, hj, rfl⟩⟩)
    intro cut hl
    have hb := hl.boundaries
    rw [memberEdits_of_standIn? hl ha]
    cases hs : standIn? source r node with
    | some text =>
      rw [resolved_of_some hs]
      exact weave_replaced hl (isReplaceable_of_standIn? hs)
    | none =>
      rw [resolved_of_none hs]
      exact weave_eq_resolvedAround hpt hl.row_parts hl.boundary_outset hb.2.1 (by omega)

/-! ### What is come to -/

/-- A place in an event that is replaced, but not in its arguments: the access to the member of the event, or a place
in its type arguments. -/
def Dropped (source : List Char) (r : Resolver) (root : Node) (place : List ℕ) (node : Node) : Prop :=
  ∃ outer event member text i inner, place = outer ++ i :: inner ∧ ComesTo source r root outer event ∧
    eventOf? event = some member ∧ standIn? source r event = some text ∧
    (∀ list, event.parts[i]? ≠ some (.mk .arguments list (argumentsOf event.parts.tail))) ∧
    (i = 0 ∧ inner = [0] ∧ thisMember? node = some member ∨ 0 < i ∧ isTypedEvent event = true)

theorem Dropped.of_part (hk : standIn? source r root = none) (hp : root.parts[i]? = some part)
    (h : Dropped source r part place node) : Dropped source r root (i :: place) node := by
  obtain ⟨outer, event, member, text, k, inner, rfl, hc, h⟩ := h
  exact ⟨i :: outer, event, member, text, k, inner, rfl, .part hk hp hc, h⟩

theorem Dropped.of_argument {argument : Node} {list : Span} {arguments : List Node} {j : ℕ}
    (he : standIn? source r root = some text) (hl : root.parts[i]? = some (.mk .arguments list arguments))
    (hf : argumentsOf root.parts.tail = arguments) (ha : arguments[j]? = some argument)
    (h : Dropped source r argument place node) : Dropped source r root (i :: j :: place) node := by
  obtain ⟨outer, event, member, text', k, inner, rfl, hc, h⟩ := h
  exact ⟨i :: j :: outer, event, member, text', k, inner, rfl, .argument he hl hf ha hc, h⟩

theorem thisMember?_eq_some (h : thisMember? node = some member) :
    ∃ optional span object, node = .mk (.member member optional) span [object] ∧ isThis object := by
  unfold thisMember? at h
  split at h
  · next name optional span object =>
    split at h
    · next ht =>
      cases h
      exact ⟨optional, span, object, rfl, ht⟩
    · cases h
  · cases h

theorem emitter?_eq_some (h : emitter? node = some member) :
    ∃ optional span object, node = .mk (.member "emit" optional) span [object] ∧ thisMember? object = some member := by
  unfold emitter? at h
  split at h
  · next name optional span object =>
    split at h
    · next hn => exact ⟨optional, span, object, by rw [eq_of_beq hn], h⟩
    · cases h
  · cases h

theorem standIn?_of_parts_eq_nil (h : node.parts = []) : standIn? source r node = none := by
  rw [standIn?, h, standInFor?]

theorem standIn?_of_isThis (hl : root.Laid source) (ht : isThis root) (ha : root.at? place = some node) :
    standIn? source r node = none := by
  rcases root with ⟨shape, span, parts⟩
  obtain rfl : shape = .this := by simpa [isThis, Node.shape] using ht
  obtain ⟨-, -, -, rfl, -⟩ := (laid_mk_of_isFramed rfl).mp hl
  rcases place with _ | ⟨i, place⟩
  · cases ha
    exact standIn?_of_parts_eq_nil rfl
  · obtain ⟨part, hp, -⟩ := Node.at?_cons_eq_some.mp ha
    cases hp

/-- In an access to a member only the access itself has a stand-in. -/
theorem eq_nil_of_thisMember? (hl : root.Laid source) (hm : thisMember? root = some member)
    (ha : root.at? place = some node) (hn : standIn? source r node = some text) : place = [] := by
  obtain ⟨optional, span, object, rfl, ht⟩ := thisMember?_eq_some hm
  rcases place with _ | ⟨i, place⟩
  · rfl
  · obtain ⟨part, hp, hin⟩ := Node.at?_cons_eq_some.mp ha
    obtain rfl := mem_singleton.mp (mem_of_getElem? hp)
    rw [standIn?_of_isThis (hl.row_parts.laid_of_mem (.head _)) ht hin] at hn
    cases hn

/-- In the callee of an event only the access to its member has a stand-in. -/
theorem eq_zero_of_emitter? (hl : root.Laid source) (hm : emitter? root = some member)
    (ha : root.at? place = some node) (hn : standIn? source r node = some text) :
    place = [0] ∧ thisMember? node = some member := by
  obtain ⟨optional, span, object, rfl, hob⟩ := emitter?_eq_some hm
  rcases place with _ | ⟨i, place⟩
  · cases ha
    obtain ⟨_, _, this, rfl, -⟩ := thisMember?_eq_some hob
    rw [standIn?_of_not_call (by rintro _ _ _ ⟨⟩)] at hn
    cases hn
  · obtain ⟨part, hp, hin⟩ := Node.at?_cons_eq_some.mp ha
    obtain rfl := mem_singleton.mp (mem_of_getElem? hp)
    have ho := hl.row_parts.laid_of_mem (.head _)
    obtain rfl := eq_nil_of_thisMember? ho hob hin hn
    cases hin
    obtain rfl : i = 0 := by
      have := (List.getElem?_eq_some_iff.mp hp).1
      simpa [Node.parts] using this
    exact ⟨rfl, hob⟩

/-- **What is not come to:** every node with a stand-in is come to, or is dropped with an event that is replaced. -/
theorem comesTo_of_standIn? (hla : root.Laid source) (hat : root.at? place = some node)
    (hn : standIn? source r node = some text) :
    ComesTo source r root place node ∨ Dropped source r root place node := by
  induction root using Node.strongInduction generalizing place with
  | h root below =>
    rcases place with _ | ⟨i, place⟩
    · cases hat
      exact .inl .here
    obtain ⟨part, hp, hin⟩ := Node.at?_cons_eq_some.mp hat
    have hpa := hla.row_parts.laid_of_mem (mem_of_getElem? hp)
    cases hr : standIn? source r root with
    | none =>
      have hb := below i [] part (Node.at?_cons_eq_some.mpr ⟨part, hp, rfl⟩) hpa hin
      exact hb.imp (.part hr hp) (.of_part hr hp)
    | some stand =>
      rcases standIn?_eq_some hr with ⟨member, hm, -⟩ | ⟨optional, span, callee, rest, member, rfl, hm, -⟩
      · cases eq_nil_of_thisMember? hla hm hat hn
      · by_cases hl : ∃ list, (callee :: rest)[i]? = some (.mk .arguments list (argumentsOf rest))
        · obtain ⟨list, hl⟩ := hl
          obtain rfl : part = .mk .arguments list (argumentsOf rest) := Option.some.inj (hp.symm.trans hl)
          rcases place with _ | ⟨j, place⟩
          · cases hin
            rw [standIn?_of_not_call (by rintro _ _ _ ⟨⟩)] at hn
            cases hn
          · obtain ⟨argument, ha, hin⟩ := Node.at?_cons_eq_some.mp hin
            have hb := below i [j] argument
              (Node.at?_cons_eq_some.mpr ⟨_, hp, Node.at?_cons_eq_some.mpr ⟨argument, ha, rfl⟩⟩)
              (hpa.row_parts.laid_of_mem (mem_of_getElem? ha)) hin
            exact hb.imp (.argument hr hp rfl ha) (.of_argument hr hp rfl ha)
        · refine .inr ⟨[], _, member, stand, i, place, rfl, .here, hm, hr, not_exists.mp hl, ?_⟩
          rcases i with _ | i
          · obtain rfl : callee = part := by simpa [Node.parts] using hp
            obtain ⟨rfl, hre⟩ := eq_zero_of_emitter? hpa hm hin hn
            exact .inl ⟨rfl, rfl, hre⟩
          · refine .inr ⟨Nat.succ_pos i, Bool.of_not_eq_false fun hpl => hl ?_⟩
            obtain ⟨list, arguments, rfl⟩ := parts_of_not_isTypedEvent hpl hm
            have hme : part ∈ [Node.mk .arguments list arguments] :=
              mem_of_getElem? (i := i) (by simpa [Node.parts] using hp)
            exact ⟨list, hp.trans (congrArg some (mem_singleton.mp hme))⟩

theorem ComesTo.exists_part (h : ComesTo source r root (i :: place) node) (hk : standIn? source r root = none) :
    ∃ part, root.parts[i]? = some part ∧ ComesTo source r part place node := by
  cases h with
  | part _ hp h => exact ⟨_, hp, h⟩
  | argument he => cases hk.symm.trans he

theorem ComesTo.exists_argument (h : ComesTo source r root (i :: place) node)
    (he : standIn? source r root = some text) : ∃ list j rest argument, place = j :: rest ∧
      root.parts[i]? = some (.mk .arguments list (argumentsOf root.parts.tail)) ∧
      (argumentsOf root.parts.tail)[j]? = some argument ∧ ComesTo source r argument rest node := by
  cases h with
  | part hk => cases hk.symm.trans he
  | argument _ hl hf ha h =>
    subst hf
    exact ⟨_, _, _, _, rfl, hl, ha, h⟩

/-- The way to a place goes through all that is come to on it. -/
theorem ComesTo.of_append {event : Node} {outer : List ℕ} (ho : ComesTo source r root outer event)
    (h : ComesTo source r root (outer ++ place) node) : ComesTo source r event place node := by
  induction ho with
  | here => exact h
  | part hk hp _ ih =>
    obtain ⟨part, hp', h⟩ := h.exists_part hk
    obtain rfl := Option.some.inj (hp.symm.trans hp')
    exact ih h
  | argument he hl hf ha _ ih =>
    obtain ⟨list, j, rest, argument, hpl, -, ha', h⟩ := h.exists_argument he
    cases hpl
    subst hf
    obtain rfl := Option.some.inj (ha.symm.trans ha')
    exact ih h

theorem Dropped.not_comesTo (h : Dropped source r root place node) : ¬ComesTo source r root place node := by
  obtain ⟨outer, event, member, text, i, inner, rfl, ho, -, he, hl, -⟩ := h
  intro hc
  obtain ⟨list, j, rest, argument, -, hl', -⟩ := (ho.of_append hc).exists_argument he
  exact hl list hl'

theorem ComesTo.laid (h : ComesTo source r root place node) (hl : root.Laid source) : node.Laid source := by
  induction h with
  | here => exact hl
  | part _ hp _ ih => exact ih (hl.row_parts.laid_of_mem (mem_of_getElem? hp))
  | argument _ hli _ ha _ ih =>
    have hll := hl.row_parts.laid_of_mem (mem_of_getElem? hli)
    exact ih (hll.row_parts.laid_of_mem (mem_of_getElem? ha))

/-! ### Texts in texts -/

theorem resolved_infix_resolvedAround (hp : part ∈ nodes) :
    resolved source r cut part <:+: resolvedAround source r cut lo hi nodes := by
  induction nodes generalizing lo with
  | nil => cases hp
  | cons node rest ih =>
    rw [resolvedAround]
    rcases mem_cons.mp hp with rfl | hp
    · exact ⟨_, _, rfl⟩
    · exact (ih hp).trans (suffix_append ..).isInfix

theorem resolved_infix_resolvedArguments (hp : part ∈ argumentsOf nodes) :
    resolved source r (wholeOf source) part <:+: resolvedArguments source r nodes := by
  fun_induction argumentsOf nodes with
  | case1 => cases hp
  | case2 span parts rest =>
    rw [resolvedArguments]
    cases hs : spanOf? parts with
    | none =>
      rcases parts with _ | ⟨first, others⟩
      · cases hp
      · simp [spanOf?, getLast?_cons] at hs
    | some inner => exact resolved_infix_resolvedAround hp
  | case3 node rest hn ih =>
    rw [resolvedArguments.eq_3 _ _ _ _ hn]
    exact ih hp

/-- What is written for a node that is come to stands in what is written for the tree, or for the arguments of an
event on the way. -/
theorem ComesTo.isInfix (h : ComesTo source r root place node) :
    (∀ cut, resolved source r cut node <:+: resolved source r cut root) ∨
      ∃ outer event text, outer <+: place ∧ ComesTo source r root outer event ∧ standIn? source r event = some text ∧
        resolved source r (wholeOf source) node <:+: resolvedArguments source r event.parts.tail := by
  induction h with
  | here => exact .inl fun cut => infix_rfl
  | @part node part inner i place hk hpa _ ih =>
    rcases ih with ih | ⟨outer, event, text, hp, hc, he, hs⟩
    · refine .inl fun cut => (ih cut).trans ?_
      rw [resolved_of_none hk]
      exact resolved_infix_resolvedAround (mem_of_getElem? hpa)
    · refine .inr ⟨i :: outer, event, text, ?_, .part hk hpa hc, he, hs⟩
      exact cons_prefix_cons.mpr ⟨rfl, hp⟩
  | @argument node argument inner list arguments text i j place he hl hf ha _ ih =>
    rcases ih with ih | ⟨outer, event, text', hp, hc, he', hs⟩
    · refine .inr ⟨[], node, text, nil_prefix, .here, he, (ih _).trans ?_⟩
      exact resolved_infix_resolvedArguments (hf ▸ mem_of_getElem? ha)
    · refine .inr ⟨i :: j :: outer, event, text', ?_, .argument he hl hf ha hc, he', hs⟩
      exact cons_prefix_cons.mpr ⟨rfl, cons_prefix_cons.mpr ⟨rfl, hp⟩⟩

/-! ### Snippets -/

/-- The text of a snippet in its wrapper as it is written once its members are resolved. -/
def Script.Snippet.resolved (snippet : Snippet) (r : Resolver) : List Char :=
  resolvedAround snippet.text r snippet.user 0 (Text.byteLength snippet.text) [snippet.root]

/-- **What resolving writes:** it succeeds, and the snippet stands in its wrapper as `resolved` says. -/
theorem resolveMembers_resolved {code : String} {kind : SnippetKind} {snippet : Snippet} (r : Resolver)
    (hp : Snippet.parse code kind = .ok snippet) : ∃ result, resolveMembers code kind r = .ok result ∧
      kind.before ++ result.toList ++ kind.after = snippet.resolved r := by
  have hru : resolveMembers code kind r =
      .ok (String.ofList (splice snippet.text snippet.user (memberEdits snippet.text r snippet.root))) := by
    rw [resolveMembers, hp]
    rfl
  refine ⟨_, hru, ?_⟩
  have hr : memberEditsOf snippet.text r [snippet.root] = memberEdits snippet.text r snippet.root := by
    rw [memberEditsOf, memberEditsOf, append_nil]
  rw [String.toList_ofList, (memberEdits_treeEdits _ _ _).weave_user hp, Snippet.resolved, ← hr]
  exact weave_eq_resolvedAround (fun part _ => resolves _ _ part) (Snippet.row_root hp) (boundary_zero _)
    (boundary_byteLength _) (Nat.zero_le _)

theorem standIn?_eq_some_iff : standIn? source r node = some text ↔
    (∃ member, thisMember? node = some member ∧ r.read member = some text) ∨ ∃ member, eventOf? node = some member ∧
        r.emit member (String.ofList (resolvedArguments source r node.parts.tail)) = some text := by
  constructor
  · intro h
    rcases standIn?_eq_some h with hr | ⟨optional, span, callee, rest, member, rfl, hm, ht⟩
    · exact .inl hr
    · exact .inr ⟨member, hm, ht⟩
  · rintro (⟨member, hm, ht⟩ | ⟨member, hm, ht⟩)
    · rw [standIn?_of_thisMember? hm, ht]
    · rw [standIn?_of_eventOf? hm, ht]

/-- What is come to is written as its stand-in, in the text of the snippet or in the arguments that are handed to the
resolver for an event around it. -/
theorem ComesTo.written {code : String} {kind : SnippetKind} {snippet : Snippet}
    (hp : Snippet.parse code kind = .ok snippet) (hc : ComesTo snippet.text r snippet.root place node)
    (hn : standIn? snippet.text r node = some text) :
    fitted snippet.text snippet.user node.span text <:+: snippet.resolved r ∨
      ∃ outer event, outer <+: place ∧ ComesTo snippet.text r snippet.root outer event ∧
        (standIn? snippet.text r event).isSome ∧
        text.toList <:+: resolvedArguments snippet.text r event.parts.tail := by
  rcases hc.isInfix with hs | ⟨outer, event, stand, hpl, ho, he, hs⟩
  · left
    rw [← resolved_of_some hn]
    exact (hs snippet.user).trans (resolved_infix_resolvedAround (.head _))
  · right
    refine ⟨outer, event, hpl, ho, by rw [he]; rfl, ?_⟩
    have hin := (hc.laid (Snippet.of_parse hp).1).within_wholeOf
    rwa [resolved_of_some hn, fitted, if_pos hin] at hs

/-- **Resolving is complete.** It always succeeds. Members that are read and events that are emitted have stand-ins;
each of them is come to, or is dropped with an event that is replaced. What is come to is written as its stand-in, in
the text of the snippet or in the arguments that are handed to the resolver for an event around it. In a snippet that
stands alone nothing with a stand-in reaches outside. -/
theorem resolveMembers_complete {code : String} {kind : SnippetKind} {snippet : Snippet} (r : Resolver)
    (hparse : Snippet.parse code kind = .ok snippet) :
    (∃ result, resolveMembers code kind r = .ok result ∧
      kind.before ++ result.toList ++ kind.after = snippet.resolved r) ∧
    (∀ node text, standIn? snippet.text r node = some text ↔
      (∃ member, thisMember? node = some member ∧ r.read member = some text) ∨ ∃ member, eventOf? node = some member ∧
          r.emit member (String.ofList (resolvedArguments snippet.text r node.parts.tail)) = some text) ∧
    (∀ place node text, snippet.root.at? place = some node → standIn? snippet.text r node = some text →
      (ComesTo snippet.text r snippet.root place node ↔ ¬Dropped snippet.text r snippet.root place node)) ∧
    (∀ place node text, ComesTo snippet.text r snippet.root place node → standIn? snippet.text r node = some text →
      fitted snippet.text snippet.user node.span text <:+: snippet.resolved r ∨
        ∃ outer event, outer <+: place ∧ ComesTo snippet.text r snippet.root outer event ∧
          (standIn? snippet.text r event).isSome ∧
          text.toList <:+: resolvedArguments snippet.text r event.parts.tail) ∧
    (snippet.standsAlone kind = true → ∀ node ∈ snippet.root.nodes, ∀ text,
      standIn? snippet.text r node = some text → fitted snippet.text snippet.user node.span text = text.toList) := by
  have hl := (Snippet.of_parse hparse).1
  refine ⟨resolveMembers_resolved r hparse, fun node text => standIn?_eq_some_iff,
    fun place node text hat hn => ?_, fun place node text hc hn => hc.written hparse hn,
    fun ha node hm text hn => ?_⟩
  · exact ⟨fun hc hd => hd.not_comesTo hc, (comesTo_of_standIn? hl hat hn).resolve_right⟩
  · rw [fitted, if_pos (Node.within_user hparse ha hm (isReplaceable_of_standIn? hn))]

/-- A resolver that drops `this` in front of `x` and of all events but one. -/
def plainResolver : Resolver where
  read member := if member == "x" then some "x" else none
  emit member args := if member == "onLost" then none else some (member ++ "(" ++ args ++ ")")

/-- Events in the arguments of an event, with a comment between: the result, and that all of it is as said. -/
theorem resolveMembers_complete_nested : ∃ snippet,
    Snippet.parse "this.onAdd.emit(this.x, /* then */ this.onDrop.emit(() => this.x), this.onLost.emit(this.x))"
      .expression = .ok snippet ∧
    resolveMembers "this.onAdd.emit(this.x, /* then */ this.onDrop.emit(() => this.x), this.onLost.emit(this.x))"
      .expression plainResolver = .ok "onAdd(x, /* then */ onDrop(() => x), this.onLost.emit(x))" ∧
    SnippetKind.expression.before ++ "onAdd(x, /* then */ onDrop(() => x), this.onLost.emit(x))".toList ++
      SnippetKind.expression.after = snippet.resolved plainResolver := by
  have hp : (Snippet.parse?
      "this.onAdd.emit(this.x, /* then */ this.onDrop.emit(() => this.x), this.onLost.emit(this.x))"
      .expression).any (fun _ => true) = true := by
    decide +kernel
  obtain ⟨snippet, hs, -⟩ := Snippet.exists_parse_of_any hp
  have hru : resolveMembers
      "this.onAdd.emit(this.x, /* then */ this.onDrop.emit(() => this.x), this.onLost.emit(this.x))" .expression
      plainResolver = .ok "onAdd(x, /* then */ onDrop(() => x), this.onLost.emit(x))" := by
    decide +kernel
  obtain ⟨result, hr, ht⟩ := (resolveMembers_complete plainResolver hs).1
  obtain rfl := Except.ok.inj (hr.symm.trans hru)
  exact ⟨snippet, hs, hru, ht⟩

/-- **What is not resolved:** an event that reaches outside of the snippet, with the read inside of it, and a member
that is the tag of an element. -/
theorem resolveMembers_leaves :
    resolveMembers "0), this.onAdd.emit(this.x" .expression plainResolver = .ok "0), this.onAdd.emit(this.x" ∧
      resolveMembers "<this.x/>" .expression plainResolver = .ok "<this.x/>" := by
  constructor <;> decide +kernel

end Polyview
