import Polyview.Proofs.Member.Update
import Polyview.Proofs.Script.Reading.Module
import Polyview.Proofs.Script.Snippet
import Polyview.Proofs.Source.Splice

/-! # The edits of a tree

Resolving members and updating them walk over a tree and collect edits. Each node is either replaced as a
whole, and then nothing inside of it is edited, or it is left to its parts: `TreeEdits` is that relation, and
both walks stay in it. On a tree that is laid out on a text the edits of a walk are separate, and each
replaces the text of one node.

`Splices` lists what is spliced on the way: the value of an assignment, a mutation as a whole, the arguments
of an event. -/

namespace Polyview

open List Script Node

variable {source : List Char} {style : UpdateStyle} {r : Resolver} {resolving : Bool} {node root : Node}
  {nodes parts : List Node} {edits more : List Edit} {lo hi : ℕ} {code : String} {kind : SnippetKind}
  {snippet : Snippet} {span : Span}

/-! ### Edits of trees -/

/-- Shapes of nodes that can be replaced. -/
def Script.Shape.isReplaceable : Shape → Bool
  | .member _ _ => true
  | .assign _ => true
  | .update _ _ => true
  | .call _ => true
  | _ => false

mutual
/-- Edits of a tree: it is replaced, or its parts are edited. -/
inductive TreeEdits : Node → List Edit → Prop
  | replaced {node : Node} (shape : node.shape.isReplaceable = true) (text : String) :
    TreeEdits node [.of node.span text]
  | parts {shape : Shape} {span : Span} {parts : List Node} {edits : List Edit} (h : TreesEdits parts edits) :
    TreeEdits (.mk shape span parts) edits

/-- Edits of trees, from the first to the last. -/
inductive TreesEdits : List Node → List Edit → Prop
  | nil : TreesEdits [] []
  | cons {node : Node} {nodes : List Node} {edits more : List Edit} (h : TreeEdits node edits)
    (hmore : TreesEdits nodes more) : TreesEdits (node :: nodes) (edits ++ more)
end

theorem Script.Shape.mayBeEmpty_of_isReplaceable {shape : Shape} (h : shape.isReplaceable) :
    shape.mayBeEmpty = false := by
  cases shape <;> first | rfl | cases h

theorem Script.Shape.mayHoist_of_isReplaceable {shape : Shape} (h : shape.isReplaceable) :
    shape.mayHoist = false := by
  cases shape <;> first | rfl | cases h

theorem Script.Node.outset_of_isReplaceable (h : node.shape.isReplaceable) : node.outset = node.span.start := by
  rcases node with ⟨shape, span, parts⟩
  exact outset_mk_of_not_mayHoist (Shape.mayHoist_of_isReplaceable h)

mutual
theorem TreeEdits.separate {node : Node} {edits : List Edit} :
    TreeEdits node edits → node.Laid source → Separate source edits node.outset node.span.stop
  | .replaced hsh text, hl => by
    rw [outset_of_isReplaceable hsh]
    rcases node with ⟨shape, span, parts⟩
    have he := Shape.mayBeEmpty_of_isReplaceable hsh
    obtain ⟨hst, hs, hlt, -⟩ := (laid_mk_of_not_mayBeEmpty he).mp hl
    exact ⟨⟨Nat.le_refl _, hlt, Nat.le_refl _⟩, ⟨hst, hs⟩, trivial⟩
  | .parts ht, hl => by
    have hb := hl.boundaries
    exact ht.separate hl.row_parts (by omega)

theorem TreesEdits.separate {nodes : List Node} {edits : List Edit} {lo hi : ℕ} :
    TreesEdits nodes edits → Row source nodes lo hi → lo ≤ hi → Separate source edits lo hi
  | .nil, _, _ => trivial
  | .cons hf hm, hro, _ => by
    obtain ⟨hst, hs, hl, hr⟩ := row_cons.mp hro
    have hb := hl.boundaries
    refine ((hf.separate hl).mono hst (Nat.le_refl _)).append (hm.separate hr hs) ?_ hs
    omega
end

/-- Each edit replaces the text of one of some nodes. -/
def OnNodes (nodes : List Node) (edits : List Edit) : Prop := ∀ edit ∈ edits, ∃ node ∈ nodes, edit.span = node.span

mutual
theorem TreeEdits.onNodes {node : Node} {edits : List Edit} : TreeEdits node edits → OnNodes node.nodes edits
  | .replaced hsh text => by
    intro edit hm
    rcases node with ⟨shape, span, parts⟩
    rw [mem_singleton.mp hm]
    exact ⟨_, .head _, rfl⟩
  | .parts ht => by
    intro edit hm
    obtain ⟨inner, hin, hs⟩ := ht.onNodes edit hm
    exact ⟨inner, .tail _ hin, hs⟩

theorem TreesEdits.onNodes {nodes : List Node} {edits : List Edit} :
    TreesEdits nodes edits → OnNodes (nodesOf nodes) edits
  | .nil => nofun
  | .cons hf hmo => by
    intro edit hm
    rcases mem_append.mp hm with hm | hm
    · obtain ⟨inner, hin, hs⟩ := hf.onNodes edit hm
      exact ⟨inner, mem_append_left _ hin, hs⟩
    · obtain ⟨inner, hin, hs⟩ := hmo.onNodes edit hm
      exact ⟨inner, mem_append_right _ hin, hs⟩
end

theorem TreeEdits.of_parts (h : TreesEdits node.parts edits) : TreeEdits node edits := by
  cases node
  exact .parts h

/-! ### The two walks -/

theorem isReplaceable_of_thisMember? {member : String} (h : thisMember? node = some member) :
    node.shape.isReplaceable := by
  unfold thisMember? at h
  split at h
  · rfl
  · cases h

theorem isReplaceable_of_mutation? {mutation : Mutation} (h : mutation? node = some mutation) :
    node.shape.isReplaceable := by
  unfold mutation? at h
  split at h <;> first | rfl | cases h

theorem isReplaceable_of_replacement {replacement : Replacement} (h : style.replacement node = replacement)
    (hn : replacement ≠ .keep) : node.shape.isReplaceable := by
  cases hm : mutation? node with
  | none => exact (hn (h.symm.trans (replacement_of_mutation?_eq_none hm))).elim
  | some mutation => exact isReplaceable_of_mutation? hm

theorem isReplaceable_of_substitute? {text : String}
    (h : substitute? source style r resolving node = .ok (some text)) : node.shape.isReplaceable := by
  unfold substitute? at h
  split at h
  · rfl
  · split at h
    · obtain ⟨member, hm, -⟩ := Option.bind_eq_some_iff.mp (Except.ok.inj h)
      exact isReplaceable_of_thisMember? hm
    · cases h

theorem updateEdits_eq_ok (h : updateEdits source style r resolving node = .ok edits) :
    (node.shape.isReplaceable ∧ ∃ text, edits = [.of node.span text]) ∨
      updateEditsOf source style r resolving node.parts = .ok edits := by
  cases hr : style.replacement node with
  | fail error => rw [updateEdits_of_fail hr] at h; cases h
  | ofAll render =>
    rw [updateEdits_of_ofAll hr] at h
    obtain ⟨inner, -, heq⟩ := bind_eq_ok.mp h
    cases heq
    exact .inl ⟨isReplaceable_of_replacement hr nofun, _, rfl⟩
  | ofValue render =>
    rw [updateEdits_of_ofValue hr] at h
    obtain ⟨value, -, heq⟩ := bind_eq_ok.mp h
    obtain ⟨text, -, heq⟩ := bind_eq_ok.mp heq
    cases heq
    exact .inl ⟨isReplaceable_of_replacement hr nofun, _, rfl⟩
  | keep =>
    rw [updateEdits_of_keep hr] at h
    obtain ⟨found, hf, heq⟩ := bind_eq_ok.mp h
    cases found with
    | none => exact .inr heq
    | some text =>
      cases heq
      exact .inl ⟨isReplaceable_of_substitute? hf, text, rfl⟩

theorem treesEdits_of_parts (hp : ∀ part ∈ nodes, ∀ edits,
      updateEdits source style r resolving part = .ok edits → TreeEdits part edits)
    (h : updateEditsOf source style r resolving nodes = .ok edits) : TreesEdits nodes edits := by
  induction nodes generalizing edits with
  | nil =>
    rw [updateEditsOf] at h
    cases h
    exact .nil
  | cons node rest ih =>
    rw [updateEditsOf_cons] at h
    obtain ⟨first, hf, heq⟩ := bind_eq_ok.mp h
    obtain ⟨others, ho, heq⟩ := bind_eq_ok.mp heq
    cases heq
    refine .cons (hp node (.head _) first hf) (ih (fun part hpa => ?_) ho)
    exact hp part (.tail _ hpa)

theorem updateEdits_treeEdits (h : updateEdits source style r resolving node = .ok edits) : TreeEdits node edits := by
  induction node using Node.induction generalizing edits with
  | h shape span parts ih =>
    rcases updateEdits_eq_ok h with ⟨hs, text, rfl⟩ | hpt
    · exact .replaced hs text
    · exact .parts (treesEdits_of_parts (fun part hp edits h => ih part hp h) hpt)

theorem updateEditsOf_treesEdits (h : updateEditsOf source style r resolving nodes = .ok edits) :
    TreesEdits nodes edits :=
  treesEdits_of_parts (fun _ _ _ h => updateEdits_treeEdits h) h

theorem memberEdits_eq (source : List Char) (r : Resolver) (node : Node) :
    (node.shape.isReplaceable ∧ ∃ text, memberEdits source r node = [.of node.span text]) ∨
      memberEdits source r node = memberEditsOf source r node.parts := by
  rcases node with ⟨shape, span, _ | ⟨head, rest⟩⟩
  · right
    rw [memberEdits, Node.parts, memberEditsOf]
  · unfold memberEdits
    rw [Node.parts, memberEditsOf]
    split
    · next text hr =>
      obtain ⟨member, hm, -⟩ := Option.bind_eq_some_iff.mp hr
      exact .inl ⟨isReplaceable_of_thisMember? hm, text, rfl⟩
    · split
      · split
        · next text _ => exact .inl ⟨rfl, text, rfl⟩
        · exact .inr rfl
      · exact .inr rfl

theorem memberEditsOf_treesEdits (h : ∀ part ∈ nodes, TreeEdits part (memberEdits source r part)) :
    TreesEdits nodes (memberEditsOf source r nodes) := by
  induction nodes with
  | nil => rw [memberEditsOf]; exact .nil
  | cons node rest ih =>
    rw [memberEditsOf]
    exact .cons (h node (.head _)) (ih fun part hp => h part (.tail _ hp))

theorem memberEdits_treeEdits (source : List Char) (r : Resolver) (node : Node) :
    TreeEdits node (memberEdits source r node) := by
  induction node using Node.induction with
  | h shape span parts ih =>
    rcases memberEdits_eq source r (.mk shape span parts) with ⟨hs, text, heq⟩ | heq
    · rw [heq]
      exact .replaced hs text
    · rw [heq]
      exact .parts (memberEditsOf_treesEdits ih)

/-! ### What is spliced -/

theorem argumentUpdates_eq (source : List Char) (style : UpdateStyle) (r : Resolver) (resolving : Bool)
    (rest : List Node) : argumentUpdates source style r resolving rest =
      updateEditsOf source style r resolving (argumentsOf rest) := by
  fun_induction argumentsOf rest with
  | case1 => rw [argumentUpdates, updateEditsOf]
  | case2 => rw [argumentUpdates]
  | case3 node rest hn ih => rw [argumentUpdates.eq_3 _ _ _ _ _ _ hn, ih]

theorem argumentEdits_eq (source : List Char) (r : Resolver) (rest : List Node) :
    argumentEdits source r rest = memberEditsOf source r (argumentsOf rest) := by
  fun_induction argumentsOf rest with
  | case1 => rw [argumentEdits, memberEditsOf]
  | case2 => rw [argumentEdits]
  | case3 node rest hn ih => rw [argumentEdits.eq_3 _ _ _ _ hn, ih]

/-- What is spliced into which span while the members in a tree are updated or resolved. -/
inductive Splices (source : List Char) (style : UpdateStyle) (r : Resolver) (root : Node) : Span → List Edit → Prop
  /-- The value of an assignment. -/
  | value {op : AssignOp} {span : Span} {target value : Node} {resolving : Bool} {edits : List Edit}
    (hmem : .mk (.assign op) span [target, value] ∈ root.nodes)
    (h : updateEdits source style r resolving value = .ok edits) : Splices source style r root value.span edits
  /-- A mutation as a whole. -/
  | whole {node : Node} {mutation : Mutation} {resolving : Bool} {edits : List Edit}
    (hmem : node ∈ root.nodes) (hmutation : mutation? node = some mutation)
    (h : updateEditsOf source style r resolving node.parts = .ok edits) :
    Splices source style r root node.span edits
  /-- The arguments of an event, where members are updated. -/
  | updatedArguments {optional : Bool} {span inner : Span} {callee : Node} {rest : List Node}
    {resolving : Bool} {edits : List Edit} (hmem : .mk (.call optional) span (callee :: rest) ∈ root.nodes)
    (hspan : spanOf? (argumentsOf rest) = some inner)
    (h : argumentUpdates source style r resolving rest = .ok edits) : Splices source style r root inner edits
  /-- The arguments of an event, where members are resolved. -/
  | resolvedArguments {optional : Bool} {span inner : Span} {callee : Node} {rest : List Node}
    (hmem : .mk (.call optional) span (callee :: rest) ∈ root.nodes)
    (hspan : spanOf? (argumentsOf rest) = some inner) :
    Splices source style r root inner (argumentEdits source r rest)

/-- All nodes of a tree that is laid out are. -/
theorem Script.Node.Laid.of_mem_nodes (h : root.Laid source) (hm : node ∈ root.nodes) : node.Laid source := by
  induction root using Node.induction with
  | h shape span parts ih =>
    rw [Node.nodes, mem_cons, mem_nodesOf_iff] at hm
    rcases hm with rfl | ⟨part, hp, hm⟩
    · exact h
    · exact ih part hp (h.row_parts.laid_of_mem hp) hm

theorem stopOf_of_getLast? {last : Node} (h : nodes.getLast? = some last) : stopOf lo nodes = last.span.stop := by
  induction nodes generalizing lo with
  | nil => cases h
  | cons first rest ih =>
    rw [stopOf]
    cases rest with
    | nil =>
      cases h
      rfl
    | cons second rest => exact ih (by simpa using h)

/-- A row of flush trees is laid out between the start of the first and the end of the last. -/
theorem Script.Row.in_spanOf? (h : Row source nodes lo hi) (hfl : Flush nodes) (hs : spanOf? nodes = some span) :
    Row source nodes span.start span.stop ∧
      Boundary source span.start ∧ Boundary source span.stop ∧ span.start ≤ span.stop := by
  unfold spanOf? at hs
  split at hs
  · next first last hf hla =>
    cases hs
    obtain ⟨rest, rfl⟩ := head?_eq_some_iff.mp hf
    obtain ⟨-, hst, hl, hre⟩ := row_cons.mp h
    have hr : Row source (first :: rest) first.span.start hi :=
      row_cons.mpr ⟨Nat.le_of_eq (hfl first (.head _)).symm, hst, hl, hre⟩
    have hr := hr.up_to_stopOf
    have hle := le_stopOf hr
    rw [stopOf_of_getLast? hla] at hr hle
    have he := (h.laid_of_mem (mem_of_getLast? hla)).boundaries.2.1
    exact ⟨hr, hl.boundaries.1, he, hle⟩
  · cases hs

theorem argumentsOf_laid {rest : List Node} (h : Row source rest lo hi) :
    Flush (argumentsOf rest) ∧ ∃ lo hi, Row source (argumentsOf rest) lo hi := by
  fun_induction argumentsOf rest generalizing lo with
  | case1 => exact ⟨flush_nil.mpr trivial, lo, hi, h⟩
  | case2 span parts rest =>
    obtain ⟨-, -, hl, -⟩ := row_cons.mp h
    obtain ⟨-, -, -, hf, hr⟩ := (laid_mk_of_isFramed rfl).mp hl
    exact ⟨hf, _, _, hr⟩
  | case3 node rest hn ih => exact ih (row_cons.mp h).2.2.2

theorem OnNodes.mono {other : List Node} (h : OnNodes nodes edits) (hsu : nodes ⊆ other) : OnNodes other edits :=
  fun edit hm => by
    obtain ⟨node, hn, hs⟩ := h edit hm
    exact ⟨node, hsu hn, hs⟩

theorem Script.Node.nodes_subset (hm : node ∈ root.nodes) : node.nodes ⊆ root.nodes := by
  intro inner hin
  obtain ⟨outer, ho⟩ := mem_nodes_iff.mp hm
  obtain ⟨place, hp⟩ := mem_nodes_iff.mp hin
  refine mem_nodes_iff.mpr ⟨outer ++ place, ?_⟩
  rw [at?_append, ho]
  exact hp

theorem Script.Node.nodesOf_parts_subset (node : Node) : nodesOf node.parts ⊆ node.nodes := by
  cases node
  exact subset_cons_self ..

theorem Script.Node.part_mem_nodes (hm : node ∈ root.parts) : node ∈ root.nodes := by
  refine root.nodesOf_parts_subset (mem_nodesOf_iff.mpr ⟨node, hm, ?_⟩)
  cases node
  exact .head _

theorem nodesOf_argumentsOf_subset (rest : List Node) : nodesOf (argumentsOf rest) ⊆ nodesOf rest := by
  fun_induction argumentsOf rest with
  | case1 => exact List.Subset.refl _
  | case2 span parts rest =>
    rw [nodesOf]
    exact subset_append_of_subset_left _ (nodesOf_parts_subset (.mk .arguments span parts))
  | case3 node rest hn ih =>
    rw [nodesOf]
    exact subset_append_of_subset_right _ ih

/-- The edits of arguments are separate, and lie between the first and the last of them. -/
theorem separate_arguments {optional : Bool} {inner : Span} {callee : Node} {rest : List Node}
    (hm : .mk (.call optional) span (callee :: rest) ∈ root.nodes) (hro : root.Laid source)
    (hs : spanOf? (argumentsOf rest) = some inner) (h : TreesEdits (argumentsOf rest) edits) :
    Separate source edits inner.start inner.stop ∧ Boundary source inner.start ∧
      Boundary source inner.stop ∧ inner.start ≤ inner.stop ∧ OnNodes root.nodes edits := by
  have hc := hro.of_mem_nodes hm
  obtain ⟨-, -, -, hre⟩ := row_cons.mp hc.row_parts
  obtain ⟨hf, lo, hi, hr⟩ := argumentsOf_laid hre
  obtain ⟨hr, hst, hso, hl⟩ := hr.in_spanOf? hf hs
  refine ⟨h.separate hr hl, hst, hso, hl, h.onNodes.mono ?_⟩
  refine List.Subset.trans (nodesOf_argumentsOf_subset rest) (List.Subset.trans ?_ (nodes_subset hm))
  rw [Node.nodes, nodesOf]
  exact subset_cons_of_subset _ (subset_append_right ..)

/-- **Everything that is spliced is separate.** What is spliced into a span on the way lies in the span, one
edit behind the other, and each replaces the text of a node. -/
theorem Splices.separate (h : Splices source style r root span edits) (hr : root.Laid source) :
    Separate source edits span.start span.stop ∧ Boundary source span.start ∧ Boundary source span.stop ∧
      span.start ≤ span.stop ∧ OnNodes root.nodes edits := by
  cases h with
  | @value op span target value resolving edits hm h =>
    have ha := hr.of_mem_nodes hm
    obtain ⟨-, -, -, hf, hro⟩ := (laid_mk_of_isFramed rfl).mp ha
    have hp : value ∈ [target, value] := by simp
    have hl := hro.laid_of_mem hp
    have hb := hl.boundaries
    have htr := updateEdits_treeEdits h
    have hs := htr.separate hl
    rw [hf value hp] at hs
    refine ⟨hs, hb.1, hb.2.1, hb.2.2.2, htr.onNodes.mono ?_⟩
    exact nodes_subset (nodes_subset hm (part_mem_nodes hp))
  | @whole node mutation resolving edits hm hmu h =>
    have hl := hr.of_mem_nodes hm
    have hb := hl.boundaries
    have ht := updateEditsOf_treesEdits h
    have hs := (TreeEdits.of_parts ht).separate hl
    rw [outset_of_isReplaceable (isReplaceable_of_mutation? hmu)] at hs
    refine ⟨hs, hb.1, hb.2.1, hb.2.2.2, ht.onNodes.mono ?_⟩
    exact List.Subset.trans node.nodesOf_parts_subset (nodes_subset hm)
  | updatedArguments hm hsp h =>
    rw [argumentUpdates_eq] at h
    exact separate_arguments hm hr hsp (updateEditsOf_treesEdits h)
  | resolvedArguments hm hsp =>
    rw [argumentEdits_eq]
    exact separate_arguments hm hr hsp
      (memberEditsOf_treesEdits fun part _ => memberEdits_treeEdits source r part)

/-! ### Snippets -/

/-- The statements in the body of a function. -/
def statementsOf? : List Node → Option (List Node)
  | [.mk .body _ statements] => some statements
  | [.mk .directives _ strings, .mk .body _ statements] => some (strings ++ statements)
  | _ => none

/-- What stands between the parts of the wrapper, if the tree is that of the wrapper around one expression or
around statements. -/
def Script.SnippetKind.contents? : SnippetKind → Node → Option (List Node)
  | .expression, .mk .program _ [.mk .expressionStatement _ [.mk .paren _ [inner]]] => some [inner]
  | .statements, .mk .program _ [.mk (.functionNode .declaration true false false) _
      (.mk (.binding _) _ [] :: .mk .params _ [] :: bodies)] => statementsOf? bodies
  | _, _ => none

/-- A snippet is by itself what its kind says: the wrapper holds an expression or statements, and these lie in
the snippet. -/
def Script.Snippet.standsAlone (snippet : Snippet) (kind : SnippetKind) : Bool :=
  (kind.contents? snippet.root).any fun nodes => nodes.all fun node =>
    snippet.user.start ≤ node.outset && node.span.stop ≤ snippet.user.stop

theorem TreesEdits.singleton (h : TreesEdits [node] edits) : TreeEdits node edits := by
  cases h with
  | cons hf hm =>
    cases hm
    rwa [append_nil]

theorem TreeEdits.parts_of_not_isReplaceable (h : TreeEdits node edits) (hs : node.shape.isReplaceable = false) :
    TreesEdits node.parts edits := by
  cases h with
  | replaced hr => rw [hs] at hr; cases hr
  | parts h => exact h

theorem TreesEdits.append {others : List Node} (h : TreesEdits nodes edits) (hm : TreesEdits others more) :
    TreesEdits (nodes ++ others) (edits ++ more) := by
  induction nodes generalizing edits with
  | nil =>
    cases h
    exact hm
  | cons node rest ih =>
    cases h with
    | cons hf hr =>
      rw [append_assoc]
      exact .cons hf (ih hr)

theorem TreesEdits.statements {bodies : List Node} (h : TreesEdits bodies edits)
    (hn : statementsOf? bodies = some nodes) : TreesEdits nodes edits := by
  unfold statementsOf? at hn
  split at hn
  · cases hn
    exact h.singleton.parts_of_not_isReplaceable rfl
  · cases hn
    cases h with
    | cons hf hr => exact (hf.parts_of_not_isReplaceable rfl).append (hr.singleton.parts_of_not_isReplaceable rfl)
  · cases hn

/-- The wrapper itself is not edited. -/
theorem TreeEdits.contents (h : TreeEdits root edits) (hn : kind.contents? root = some nodes) :
    TreesEdits nodes edits := by
  unfold SnippetKind.contents? at hn
  split at hn
  · cases hn
    have hs := (h.parts_of_not_isReplaceable rfl).singleton
    have hp := (hs.parts_of_not_isReplaceable rfl).singleton
    exact hp.parts_of_not_isReplaceable rfl
  · have hf := (h.parts_of_not_isReplaceable rfl).singleton
    have hpt := hf.parts_of_not_isReplaceable rfl
    cases hpt with
    | cons hb hr =>
      cases hb.parts_of_not_isReplaceable rfl
      cases hr with
      | cons hpr hbo =>
        cases hpr.parts_of_not_isReplaceable rfl
        exact hbo.statements hn
  · cases hn

theorem Script.Row.statements {bodies : List Node} (h : Row source bodies lo hi)
    (hn : statementsOf? bodies = some nodes) : ∃ lo hi, Row source nodes lo hi := by
  unfold statementsOf? at hn
  split at hn
  · cases hn
    exact ⟨_, _, (row_cons.mp h).2.2.1.row_parts⟩
  · cases hn
    obtain ⟨-, hd, hs, hr⟩ := row_cons.mp h
    obtain ⟨hst, hso, hb, -⟩ := row_cons.mp hr
    have hbd := hs.boundaries
    have hc := stopOf_le hs.row_parts (Nat.le_refl _) (hbd.2.2.1.trans hbd.2.2.2)
    refine ⟨_, hi, row_append.mpr ⟨hs.row_parts.mono (Nat.le_refl _) hd, ?_⟩⟩
    exact hb.row_parts.mono (Nat.le_trans hc hst) hso
  · cases hn

theorem Script.Node.Laid.contents (h : root.Laid source) (hn : kind.contents? root = some nodes) :
    ∃ lo hi, Row source nodes lo hi := by
  unfold SnippetKind.contents? at hn
  split at hn
  · cases hn
    have hs := (row_cons.mp h.row_parts).2.2.1
    have hp := (row_cons.mp hs.row_parts).2.2.1
    exact ⟨_, _, hp.row_parts⟩
  · have hf := (row_cons.mp h.row_parts).2.2.1
    have hr := (row_cons.mp hf.row_parts).2.2.2
    exact (row_cons.mp hr).2.2.2.statements hn
  · cases hn

/-- A snippet that has been read: its tree is laid out on the wrapped text, in which the code stands where the
snippet says. -/
theorem Script.Snippet.of_parse (h : Snippet.parse code kind = .ok snippet) :
    snippet.root.Laid snippet.text ∧ snippet.text = kind.before ++ code.toList ++ kind.after ∧
      snippet.user.start = Text.byteLength kind.before ∧
      snippet.user.stop = snippet.user.start + Text.byteLength code.toList := by
  obtain ⟨tree, ht, rfl⟩ := Option.map_eq_some_iff.mp (Snippet.parse_eq_ok.mp h)
  exact ⟨parse?_laid ht, rfl, rfl, rfl⟩

theorem Script.Snippet.boundaries (h : Snippet.parse code kind = .ok snippet) :
    Boundary snippet.text snippet.user.start ∧
      Boundary snippet.text snippet.user.stop ∧ snippet.user.start ≤ snippet.user.stop := by
  obtain ⟨-, ht, hst, hs⟩ := Snippet.of_parse h
  refine ⟨⟨code.toList ++ kind.after, kind.before, ?_, hst.symm⟩, ⟨kind.after, kind.before ++ code.toList, ht, ?_⟩, ?_⟩
  · rw [ht, append_assoc]
  · rw [Text.byteLength_append, hs, hst]
  · omega

theorem TreeEdits.separate_user (hp : Snippet.parse code kind = .ok snippet)
    (ha : snippet.standsAlone kind) (h : TreeEdits snippet.root edits) :
    Separate snippet.text edits snippet.user.start snippet.user.stop := by
  obtain ⟨nodes, hn, hin⟩ := (Option.any_eq_true _ _).mp ha
  have hin : ∀ node ∈ nodes, snippet.user.start ≤ node.outset ∧ node.span.stop ≤ snippet.user.stop := by
    simpa using hin
  obtain ⟨lo, hi, hr⟩ := (Snippet.of_parse hp).1.contents hn
  exact (h.contents hn).separate (hr.within hin) (Snippet.boundaries hp).2.2

mutual
/-- Any tree may be left as it is. -/
theorem TreeEdits.nil : (node : Node) → TreeEdits node []
  | .mk _ _ parts => .parts (TreesEdits.nil_of parts)

theorem TreesEdits.nil_of : (nodes : List Node) → TreesEdits nodes []
  | [] => .nil
  | node :: rest => .cons (TreeEdits.nil node) (TreesEdits.nil_of rest)
end

/-- Any node that can be replaced may be the only one. -/
theorem TreeEdits.of_mem (hm : node ∈ root.nodes) (hsh : node.shape.isReplaceable) (text : String) :
    TreeEdits root [.of node.span text] := by
  induction root using inductionOnParts with
  | h root ih =>
    rw [nodes_eq, mem_cons, mem_nodesOf_iff] at hm
    rcases hm with rfl | ⟨part, hp, hm⟩
    · exact .replaced hsh text
    · obtain ⟨before, after, hs⟩ := append_of_mem hp
      refine .of_parts ?_
      rw [hs]
      exact (TreesEdits.nil_of before).append (.cons (ih part hp hm) (TreesEdits.nil_of after))

/-- What can be replaced in a snippet that stands alone lies in it. -/
theorem Script.Node.within_user (hp : Snippet.parse code kind = .ok snippet)
    (ha : snippet.standsAlone kind) (hm : node ∈ snippet.root.nodes)
    (hs : node.shape.isReplaceable) : node.span.within snippet.user := by
  have he := TreeEdits.of_mem hm hs ""
  have hb := (he.separate_user hp ha).bounds (.head _)
  simpa [Span.within] using ⟨hb.1.1, hb.1.2.2⟩

end Polyview
