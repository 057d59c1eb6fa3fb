import Polyview.Proofs.Member.Edits

/-! # What a tree is written as

Updating the members in a tree collects edits, and splicing puts these into the text. `rendered` says what comes
out of both, by recursion over the tree alone: a node that is replaced is written as its replacement, and any
other keeps its own text around what is written for its parts. `updateMembers_rendered` says that a snippet
that is updated is written so.

Only what lies in the snippet is written anew. A node that is to be replaced and that reaches outside stays as it
is, together with all that is inside of it. -/

namespace Polyview

open List Script

variable {code : String} {kind : SnippetKind} {snippet : Snippet} {span : Span}

section

variable (source : List Char) (cut : Span) (style : UpdateStyle) (r : Resolver)

/-- The text of a node that is replaced; if it reaches outside of the cut, it stays. -/
def fitted (span : Span) (text : String) : List Char := if span.within cut then text.toList else span.chars source

mutual
/-- What a tree is written as, from its outset on. -/
def rendered (resolving : Bool) : Node → List Char
  | .mk shape span parts =>
    match style.replacement (.mk shape span parts) with
    | .fail _ => fitted source cut span ""
    | .ofValue render => fitted source cut span ((render (renderedValue style.resolvesReads parts)).toOption.getD "")
    | .ofAll render => fitted source cut span (render (framed style.resolvesReads span.start span.stop parts))
    | .keep =>
      match writtenFor? resolving shape span parts with
      | some text => fitted source cut span text
      | none => framed resolving (Node.mk shape span parts).outset span.stop parts

/-- The text between two offsets around what trees are written as. -/
def framed (resolving : Bool) (lo hi : ℕ) : List Node → List Char
  | [] => (Span.mk lo hi).chars source
  | node :: rest =>
    (Span.mk lo node.outset).chars source ++ rendered resolving node ++ framed resolving node.span.stop hi rest

/-- What the value of an assignment is written as, given the parts of the assignment; `1` for an update. -/
def renderedValue (resolving : Bool) : List Node → List Char
  | [_, value] => rendered resolving value
  | _ => ['1']

/-- What is written for a node that is kept, where members are resolved: for an event that is emitted, and for
a member that is read. -/
def writtenFor? (resolving : Bool) (shape : Shape) (span : Span) : List Node → Option String
  | [] => none
  | first :: rest =>
    if !resolving then none
    else match shape with
      | .call _ => (emitter? first).bind fun member => r.emit member (String.ofList (renderedArguments resolving rest))
      | _ => (thisMember? (.mk shape span (first :: rest))).bind r.read

/-- What the arguments of a call are written as, given its parts behind the callee. -/
def renderedArguments (resolving : Bool) : List Node → List Char
  | [] => []
  | .mk .arguments _ parts :: _ =>
    match spanOf? parts with
    | some span => framed resolving span.start span.stop parts
    | none => []
  | _ :: rest => renderedArguments resolving rest
end

/-- What is written for a node that is kept, if anything else than its own text. -/
def written? (resolving : Bool) (node : Node) : Option String :=
  writtenFor? source cut style r resolving node.shape node.span node.parts

end

variable {source : List Char} {cut : Span} {style : UpdateStyle} {r : Resolver} {resolving : Bool} {node : Node}
  {nodes : List Node} {edits : List Edit} {lo hi : ℕ}

/-! ### The rules of `rendered` -/

theorem rendered_of_ofAll {render : List Char → String} (h : style.replacement node = .ofAll render) :
    rendered source cut style r resolving node = fitted source cut node.span
      (render (framed source cut style r style.resolvesReads node.span.start node.span.stop node.parts)) := by
  cases node
  rw [rendered, h]
  rfl

theorem rendered_of_ofValue {render : List Char → Except Error String} (h : style.replacement node = .ofValue render) :
    rendered source cut style r resolving node = fitted source cut node.span
      ((render (renderedValue source cut style r style.resolvesReads node.parts)).toOption.getD "") := by
  cases node
  rw [rendered, h]
  rfl

theorem rendered_of_keep (h : style.replacement node = .keep) : rendered source cut style r resolving node =
      match written? source cut style r resolving node with
      | some text => fitted source cut node.span text
      | none => framed source cut style r resolving node.outset node.span.stop node.parts := by
  cases node
  rw [rendered, h]
  rfl

theorem written?_false : written? source cut style r false node = none := by
  rcases node with ⟨shape, span, _ | ⟨first, rest⟩⟩
  · rw [written?, Node.parts, writtenFor?]
  · unfold written? writtenFor?
    rfl

theorem written?_call {optional : Bool} {callee : Node} {rest : List Node} :
    written? source cut style r resolving (.mk (.call optional) span (callee :: rest)) =
      (if resolving then emitter? callee else none).bind fun member =>
        r.emit member (String.ofList (renderedArguments source cut style r resolving rest)) := by
  rw [written?, Node.shape, Node.parts, writtenFor?]
  cases resolving <;> rfl

theorem written?_of_not_call
    (h : ∀ optional callee rest, node.shape = .call optional → node.parts = callee :: rest → False) :
    written? source cut style r resolving node = if resolving then (thisMember? node).bind r.read else none := by
  rcases node with ⟨shape, span, _ | ⟨first, rest⟩⟩
  · rw [written?, Node.parts, writtenFor?]
    simp [thisMember?]
  · have hc : ∀ optional, shape = .call optional → False := fun optional hs => h optional first rest hs rfl
    rw [written?, Node.shape, Node.parts, Node.span, writtenFor?.eq_3 _ _ _ _ _ _ _ _ _ hc]
    cases resolving <;> rfl

/-! ### Texts of replaced nodes -/

/-- The text of a tree starts at the start of a character. -/
theorem Script.Node.Laid.boundary_outset (h : node.Laid source) : Boundary source node.outset := by
  induction node using Node.induction with
  | h shape span parts ih =>
    cases parts with
    | nil => exact h.boundaries.1
    | cons first rest =>
      rw [Node.outset]
      split
      · have hf := ih first (.head _) (row_cons.mp h.row_parts).2.2.1
        rcases Nat.le_total span.start first.outset with hl | hl
        · rw [Nat.min_eq_left hl]
          exact h.boundaries.1
        · rwa [Nat.min_eq_right hl]
      · exact h.boundaries.1

theorem within_iff {inner outer : Span} :
    inner.within outer ↔ outer.start ≤ inner.start ∧ inner.stop ≤ outer.stop := by
  simp [Span.within]

theorem fitted_congr {text text' : String} (h : cut.start ≤ span.start ∧ span.stop ≤ cut.stop → text = text') :
    fitted source cut span text = fitted source cut span text' := by
  unfold fitted
  split
  · next hin => rw [h (within_iff.mp hin)]
  · rfl

theorem weave_replaced {text : String} (hl : node.Laid source) (hsh : node.shape.isReplaceable) :
    weave source node.outset node.span.stop ([Edit.of node.span text].filter fun edit => edit.span.within cut) =
      fitted source cut node.span text := by
  have hb := hl.boundaries
  have hs : (Edit.of node.span text).span = node.span := rfl
  rw [Node.outset_of_isReplaceable hsh, fitted, filter_cons, hs]
  split
  · simp only [filter_nil, weave, Edit.of, chars_self hb.1, chars_self hb.2.1, nil_append, append_nil]
  · rfl

/-- Inside of a span that lies in the cut, no edit is left out. -/
theorem splice_eq_weave_filter (h : Separate source edits span.start span.stop) (hst : Boundary source span.start)
    (hs : Boundary source span.stop) (hl : span.start ≤ span.stop)
    (hin : cut.start ≤ span.start ∧ span.stop ≤ cut.stop) :
    splice source span edits = weave source span.start span.stop (edits.filter fun edit => edit.span.within cut) := by
  have ha : ∀ edit ∈ edits, edit.span.within cut = true := by
    intro edit hm
    have hb := (h.bounds hm).1
    exact within_iff.mpr (by omega)
  rw [filter_eq_self.mpr ha, splice_eq_weave h hst hs hl]

/-! ### Edits and texts -/

/-- Splicing the edits of a tree gives what the tree is written as. Where members are resolved, the tree is part
of what is replaced, so it lies in the cut. -/
def Renders (source : List Char) (cut : Span) (style : UpdateStyle) (r : Resolver) (node : Node) : Prop :=
  ∀ resolving edits, node.Laid source → (resolving = true → cut.start ≤ node.outset ∧ node.span.stop ≤ cut.stop) →
    updateEdits source style r resolving node = .ok edits →
    weave source node.outset node.span.stop (edits.filter fun edit => edit.span.within cut) =
      rendered source cut style r resolving node

theorem weave_eq_framed (hp : ∀ part ∈ nodes, Renders source cut style r part)
    (hro : Row source nodes lo hi) (hlo : Boundary source lo) (hh : Boundary source hi) (hle : lo ≤ hi)
    (hin : resolving → cut.start ≤ lo ∧ hi ≤ cut.stop)
    (h : updateEditsOf source style r resolving nodes = .ok edits) :
    weave source lo hi (edits.filter fun edit => edit.span.within cut) =
      framed source cut style r resolving lo hi nodes := by
  induction nodes generalizing lo edits with
  | nil =>
    rw [updateEditsOf] at h
    cases h
    rw [framed]
    rfl
  | cons node rest ih =>
    rw [updateEditsOf_cons] at h
    obtain ⟨first, hf, h⟩ := bind_eq_ok.mp h
    obtain ⟨others, ho, h⟩ := bind_eq_ok.mp h
    cases h
    obtain ⟨hst, hs, hl, hre⟩ := row_cons.mp hro
    have hb := hl.boundaries
    have hou := hl.boundary_outset
    have hse : Separate source (first.filter fun edit => edit.span.within cut) node.outset node.span.stop :=
      ((updateEdits_treeEdits hf).separate hl).filter _
    have hm : Separate source (others.filter fun edit => edit.span.within cut) node.span.stop hi :=
      ((updateEditsOf_treesEdits ho).separate hre hs).filter _
    have hw := hp node (.head _) resolving first hl
      (fun hr => ⟨Nat.le_trans (hin hr).1 hst, Nat.le_trans hs (hin hr).2⟩) hf
    have hbe := ih (fun part hpa => hp part (.tail _ hpa)) hre hb.2.1 hs
      (fun hr => ⟨by have := hin hr; omega, (hin hr).2⟩) ho
    rw [framed, filter_append, weave_around hse hm hlo hou hb.2.1 hh hst (by omega) hs, hw, hbe]

theorem splice_eq_framed (hp : ∀ part ∈ nodes, Renders source cut style r part)
    (hr : Row source nodes span.start span.stop) (hst : Boundary source span.start)
    (hs : Boundary source span.stop) (hl : span.start ≤ span.stop)
    (hin : cut.start ≤ span.start ∧ span.stop ≤ cut.stop)
    (h : updateEditsOf source style r resolving nodes = .ok edits) :
    splice source span edits = framed source cut style r resolving span.start span.stop nodes := by
  have hse := (updateEditsOf_treesEdits h).separate hr hl
  rw [splice_eq_weave_filter hse hst hs hl hin, weave_eq_framed hp hr hst hs hl (fun _ => hin) h]

theorem Script.Row.spanOf?_bounds (h : Row source nodes lo hi) (hfl : Flush nodes)
    (hs : spanOf? nodes = some span) : lo ≤ span.start ∧ span.stop ≤ hi := by
  unfold spanOf? at hs
  split at hs
  · next first last hf hl =>
    cases hs
    have hm := mem_of_head? hf
    exact ⟨hfl first hm ▸ h.le_outset_of_mem hm, h.stop_le (mem_of_getLast? hl)⟩
  · cases hs

theorem renderArguments_eq {rest : List Node} (hp : ∀ part ∈ argumentsOf rest, Renders source cut style r part)
    (hr : Row source rest lo hi) (hin : cut.start ≤ lo ∧ hi ≤ cut.stop)
    (h : updateEditsOf source style r resolving (argumentsOf rest) = .ok edits) :
    renderArguments source (argumentsOf rest) edits =
      String.ofList (renderedArguments source cut style r resolving rest) := by
  fun_induction argumentsOf rest generalizing lo with
  | case1 => rw [renderedArguments]; rfl
  | case2 span parts rest =>
    obtain ⟨hst, hs, hl, -⟩ := row_cons.mp hr
    obtain ⟨-, -, -, hf, ha⟩ := (laid_mk_of_isFramed rfl).mp hl
    rw [outset_mk_of_not_mayHoist rfl] at hst
    rw [span_mk] at hs
    rw [renderArguments, renderedArguments]
    cases hi1 : spanOf? parts with
    | none => rfl
    | some inner =>
      obtain ⟨hir, hfs, hla, hle⟩ := ha.in_spanOf? hf hi1
      have hb := ha.spanOf?_bounds hf hi1
      simp only
      rw [splice_eq_framed hp hir hfs hla hle (by omega) h]
  | case3 node rest hn ih =>
    obtain ⟨hst, hs, hl, hre⟩ := row_cons.mp hr
    have hbd := hl.boundaries
    rw [renderedArguments.eq_3 _ _ _ _ _ _ _ hn]
    exact ih hp hre ⟨by omega, hin.2⟩ h

theorem mem_argumentsOf {part : Node} (h : part ∈ argumentsOf nodes) :
    ∃ arguments ∈ nodes, arguments.shape = .arguments ∧ part ∈ arguments.parts := by
  fun_induction argumentsOf nodes with
  | case1 => cases h
  | case2 span parts rest => exact ⟨_, .head _, rfl, h⟩
  | case3 node rest hn ih =>
    obtain ⟨arguments, hm, hp⟩ := ih h
    exact ⟨arguments, .tail _ hm, hp⟩

/-- For a kept node the same text is written. -/
theorem substitute?_eq (hl : node.Laid source)
    (hp : ∀ part ∈ argumentsOf node.parts.tail, Renders source cut style r part)
    (hin : resolving → cut.start ≤ node.outset ∧ node.span.stop ≤ cut.stop) {found : Option String}
    (h : substitute? source style r resolving node = .ok found) :
    found = written? source cut style r resolving node := by
  rcases call_or_not node with ⟨optional, span, callee, rest, rfl⟩ | hc
  · obtain ⟨hst, -, hca, hr⟩ := row_cons.mp hl.row_parts
    have hb := hca.boundaries
    rw [written?_call]
    rw [substitute?] at h
    cases he : if resolving then emitter? callee else none with
    | none =>
      rw [he] at h
      cases h
      rfl
    | some member =>
      rw [he] at h
      obtain ⟨edits, hed, heq⟩ := bind_eq_ok.mp h
      cases heq
      have hin := hin (by cases resolving <;> simp_all)
      rw [argumentUpdates_eq] at hed
      have ha : ∀ part ∈ argumentsOf rest, Renders source cut style r part := hp
      rw [Option.bind_some, renderArguments_eq ha hr ⟨by omega, hin.2⟩ hed]
  · rw [written?_of_not_call hc]
    cases node
    rw [substitute?.eq_2 _ _ _ _ _ (by rintro optional _ callee rest ⟨⟩; exact hc optional callee rest rfl rfl)] at h
    exact (Except.ok.inj h).symm

/-- The value of an assignment is written as the same text. -/
theorem valueText_eq {render : List Char → Except Error String} (hr : style.replacement node = .ofValue render)
    (hl : node.Laid source) (hp : ∀ part ∈ node.parts, Renders source cut style r part)
    (hin : cut.start ≤ node.span.start ∧ node.span.stop ≤ cut.stop) {text : List Char}
    (h : valueText source style r node = .ok text) :
    text = renderedValue source cut style r style.resolvesReads node.parts := by
  cases updateForm node with
  | assign op span target value =>
    obtain ⟨edits, he, rfl⟩ := map_eq_ok.mp h
    have hm : value ∈ [target, value] := by simp
    obtain ⟨-, -, -, hf, hro⟩ := (laid_mk_of_isFramed rfl).mp hl
    have hv := hro.laid_of_mem hm
    have hb := hv.boundaries
    have hfs : span.start ≤ value.span.start := hf value hm ▸ hro.le_outset_of_mem hm
    have hla : value.span.stop ≤ span.stop := hro.stop_le hm
    have hs := (updateEdits_treeEdits he).separate hv
    have hw := hp value hm style.resolvesReads edits hv
    rw [hf value hm] at hs hw
    have hc : cut.start ≤ value.span.start ∧ value.span.stop ≤ cut.stop :=
      ⟨Nat.le_trans hin.1 hfs, Nat.le_trans hla hin.2⟩
    rw [splice_eq_weave_filter hs hb.1 hb.2.1 hb.2.2.2 hc, hw (fun _ => hc) he, Node.parts, renderedValue]
  | update increment before span target =>
    cases h
    rw [Node.parts, renderedValue]
    simp
  | call optional span callee rest => exact (replacement_call_ne_ofValue hr).elim
  | other mutates => rw [replacement_of_mutation?_eq_none mutates] at hr; cases hr

/-- **Edits and texts.** Splicing the edits of a tree gives what the tree is written as. -/
theorem renders (source : List Char) (cut : Span) (style : UpdateStyle) (r : Resolver) (node : Node) :
    Renders source cut style r node := by
  induction node using Node.strongInduction with
  | h node below =>
    have hpt : ∀ part ∈ node.parts, Renders source cut style r part := by
      intro part hp
      obtain ⟨i, hi⟩ := mem_iff_getElem?.mp hp
      exact below i [] part (Node.at?_cons_eq_some.mpr ⟨part, hi, rfl⟩)
    have ha : ∀ part ∈ argumentsOf node.parts.tail, Renders source cut style r part := by
      intro part hp
      obtain ⟨arguments, hm, -, hp⟩ := mem_argumentsOf hp
      obtain ⟨i, hi⟩ := mem_iff_getElem?.mp (mem_of_mem_tail hm)
      obtain ⟨j, hj⟩ := mem_iff_getElem?.mp hp
      exact below i [j] part
        (Node.at?_cons_eq_some.mpr ⟨arguments, hi, Node.at?_cons_eq_some.mpr ⟨part, hj, rfl⟩⟩)
    intro resolving edits hl hin h
    have hb := hl.boundaries
    cases hr : style.replacement node with
    | fail error => rw [updateEdits_of_fail hr] at h; cases h
    | ofAll render =>
      rw [updateEdits_of_ofAll hr] at h
      obtain ⟨inner, hi1, heq⟩ := bind_eq_ok.mp h
      cases heq
      have hs := isReplaceable_of_replacement hr nofun
      have hro := Node.outset_of_isReplaceable hs ▸ hl.row_parts
      rw [weave_replaced hl hs, rendered_of_ofAll hr]
      refine fitted_congr fun hc => ?_
      rw [splice_eq_framed hpt hro hb.1 hb.2.1 hb.2.2.2 hc hi1]
    | ofValue render =>
      rw [updateEdits_of_ofValue hr] at h
      obtain ⟨value, hv, heq⟩ := bind_eq_ok.mp h
      obtain ⟨text, ht, heq⟩ := bind_eq_ok.mp heq
      cases heq
      have hs := isReplaceable_of_replacement hr nofun
      rw [weave_replaced hl hs, rendered_of_ofValue hr]
      refine fitted_congr fun hc => ?_
      rw [← valueText_eq hr hl hpt hc hv, ht]
      rfl
    | keep =>
      rw [updateEdits_of_keep hr] at h
      obtain ⟨found, hf, heq⟩ := bind_eq_ok.mp h
      have hw := substitute?_eq hl ha hin hf
      rw [rendered_of_keep hr, ← hw]
      cases found with
      | none => exact weave_eq_framed hpt hl.row_parts hl.boundary_outset hb.2.1 (by omega) hin heq
      | some text =>
        cases heq
        exact weave_replaced hl (isReplaceable_of_substitute? hf)

/-! ### Snippets -/

/-- The text of a snippet between the two parts of its wrapper. -/
theorem Script.Snippet.chars_of_parse (h : Snippet.parse code kind = .ok snippet) :
    (Span.mk 0 snippet.user.start).chars snippet.text = kind.before ∧ snippet.user.chars snippet.text = code.toList ∧
      (Span.mk snippet.user.stop (Text.byteLength snippet.text)).chars snippet.text = kind.after := by
  obtain ⟨-, ht, hst, hs⟩ := Snippet.of_parse h
  have hu : snippet.user =
      ⟨Text.byteLength kind.before, Text.byteLength kind.before + Text.byteLength code.toList⟩ := by
    rw [← hst, ← hs]
  have hsi : Text.byteLength snippet.text =
      Text.byteLength (kind.before ++ code.toList) + Text.byteLength kind.after := by
    rw [ht, Text.byteLength_append]
  refine ⟨?_, ?_, ?_⟩
  · have := chars_between [] kind.before (code.toList ++ kind.after)
    rwa [Text.byteLength_nil, Nat.zero_add, nil_append, ← append_assoc, ← ht, ← hst] at this
  · have := chars_between kind.before code.toList kind.after
    rwa [← append_assoc, ← ht, ← hu] at this
  · have := chars_between (kind.before ++ code.toList) kind.after []
    rwa [append_nil, ← ht, ← hsi, Text.byteLength_append, ← hst, ← hs] at this

/-- The edits of a snippet lie between the two parts of its wrapper, so these are copied. -/
theorem TreeEdits.weave_user (hp : Snippet.parse code kind = .ok snippet) (h : TreeEdits snippet.root edits) :
    kind.before ++ splice snippet.text snippet.user edits ++ kind.after =
      weave snippet.text 0 (Text.byteLength snippet.text)
        (edits.filter fun edit => edit.span.within snippet.user) := by
  obtain ⟨hst, hs, hl⟩ := Snippet.boundaries hp
  obtain ⟨hb, -, haf⟩ := Snippet.chars_of_parse hp
  have ha := h.separate (Snippet.of_parse hp).1
  have hf : Separate snippet.text (edits.filter fun edit => edit.span.within snippet.user)
      snippet.user.start snippet.user.stop :=
    (ha.filter _).within fun edit hm => within_iff.mp (mem_filter.mp hm).2
  rw [← append_nil (edits.filter _), weave_around hf separate_nil (boundary_zero _) hst hs
    (boundary_byteLength _) (Nat.zero_le _) hl hs.le_byteLength, ← splice_filter ha,
    splice_eq_weave hf hst hs hl, hb, weave, haf]

/-- The root of a snippet as a row over the whole text. -/
theorem Script.Snippet.row_root (hp : Snippet.parse code kind = .ok snippet) :
    Row snippet.text [snippet.root] 0 (Text.byteLength snippet.text) := by
  have hl := (Snippet.of_parse hp).1
  exact row_cons.mpr ⟨Nat.zero_le _, hl.boundaries.2.1.le_byteLength, hl, row_nil.mpr trivial⟩

/-- The text of a snippet in its wrapper as it is written once its members are updated. -/
def Script.Snippet.rendered (snippet : Snippet) (style : UpdateStyle) (r : Resolver) : List Char :=
  framed snippet.text snippet.user style r false 0 (Text.byteLength snippet.text) [snippet.root]

/-- **What an update writes:** the snippet stands in its wrapper as `rendered` says. -/
theorem updateMembers_rendered {result : String} (hp : Snippet.parse code kind = .ok snippet)
    (h : updateMembers code kind style r = .ok result) :
    kind.before ++ result.toList ++ kind.after = snippet.rendered style r := by
  rw [updateMembers_of_parse hp] at h
  obtain ⟨edits, he, rfl⟩ := map_eq_ok.mp h
  have hr : updateEditsOf snippet.text style r false [snippet.root] = .ok edits := by
    rw [updateEditsOf_singleton, he]
  rw [String.toList_ofList, (updateEdits_treeEdits he).weave_user hp, Snippet.rendered]
  exact weave_eq_framed (fun part _ => renders _ _ _ _ part) (Snippet.row_root hp) (boundary_zero _)
    (boundary_byteLength _) (Nat.zero_le _) nofun hr

end Polyview
