import Polyview.Proofs.Member.Edits
import Polyview.Unit.Extraction

/-! # Removing markers

The text of a provider is that of its class without the markers. Each marker is removed with the blanks behind
it. These never reach into the next decorator, which starts with `@`, nor past the brace at the end of the
class, so the removals are separate and lie in the class. With that all edits are accounted for:
`edits_splice_cleanly` says that none is lost, whether members are resolved, updated, or markers removed. -/

namespace Polyview

open List Script Text

variable {source : List Char} {table : MarkerTable} {marked : MarkedClass} {node statement : Node}
  {nodes : List Node} {lo hi brace : ℕ}

/-- The edits that remove the markers of a class and of its members. -/
def markerEdits (source : List Char) (table : MarkerTable) (marked : MarkedClass) : List Edit :=
  let holders := marked.node :: classElements marked.node
  let decorators := holders.flatMap fun holder => holder.parts.filter isDecorator
  (decorators.filter fun d => (table.ofDecorator? d).isSome).map (removal source)

/-- The text of a provider is that of its class without the markers. -/
theorem providerOf_source (name : String) (items : List UnitItem) : (providerOf source table marked name items).source =
      String.ofList (splice source marked.span (markerEdits source table marked)) :=
  rfl

/-! ### One removal -/

/-- The blanks behind an offset end at the first character that is not blank. -/
theorem byteLength_takeWhile_le {rest after : List Char} {c : Char} (h : Follows source lo rest)
    (hc : Follows source hi (c :: after)) (hle : lo ≤ hi) (hb : isBlank c = false) :
    lo + byteLength (rest.takeWhile isBlank) ≤ hi := by
  obtain ⟨taken, rfl, hsi⟩ := h.exists_takes hc hle
  have hs : ((taken ++ c :: after).takeWhile isBlank).IsPrefix taken := by
    rw [takeWhile_append]
    split
    · have hn : (c :: after).takeWhile isBlank = [] := takeWhile_cons_of_neg (by simp [hb])
      exact ⟨[], by rw [hn, append_nil, append_nil]⟩
    · exact takeWhile_prefix _
  obtain ⟨more, hm⟩ := hs
  have hl := congrArg byteLength hm
  rw [byteLength_append] at hl
  omega

theorem follows_chars (h : Boundary source lo) :
    Follows source lo ((Span.mk lo (byteLength source)).chars source) := by
  obtain ⟨rest, hr⟩ := h
  have he : Follows source (byteLength source) [] := ⟨source, by simp, rfl⟩
  obtain ⟨after, ha, heq, -⟩ := hr.exists_chars he.boundary hr.boundary.le_byteLength
  obtain rfl := ha.unique he
  rwa [heq, append_nil] at hr

theorem stop_removal_le {after : List Char} {c : Char} (hl : node.Laid source)
    (hc : Follows source hi (c :: after)) (hle : node.span.stop ≤ hi) (hb : isBlank c = false) :
    (removal source node).span.stop ≤ hi :=
  byteLength_takeWhile_le (follows_chars hl.boundaries.2.1) hc hle hb

theorem boundary_stop_removal (hl : node.Laid source) : Boundary source (removal source node).span.stop :=
  ((follows_chars hl.boundaries.2.1).takes (takes_takeWhile isBlank _)).boundary

theorem Script.Node.Laid.atSign (h : node.Laid source) (hsh : node.shape = .decorator) :
    AtSign source node.span.start ∧ node.outset = node.span.start ∧ node.span.start < node.span.stop := by
  rcases node with ⟨shape, span, parts⟩
  obtain rfl : shape = .decorator := hsh
  obtain ⟨-, -, hl, hs, -⟩ := (laid_mk_of_isFramed rfl).mp h
  exact ⟨hs, outset_mk_of_not_mayHoist rfl, hl⟩

/-! ### All removals -/

theorem separate_removals (h : Row source nodes lo brace) (hs : Decorators nodes)
    (hbr : AtBrace source brace) : Separate source (nodes.map (removal source)) lo brace := by
  induction nodes generalizing lo with
  | nil => trivial
  | cons first rest ih =>
    obtain ⟨hst, hso, hl, hr⟩ := row_cons.mp h
    obtain ⟨-, ho, hlt⟩ := hl.atSign (hs first (.head _))
    have hg : first.span.stop ≤ (removal source first).span.stop := Nat.le_add_right _ _
    obtain ⟨after, ha⟩ := hbr
    have hb := stop_removal_le hl ha hso rfl
    -- The next decorator starts with a sign that is not blank, so it starts behind the removal.
    have hn : Row source rest (removal source first).span.stop brace := by
      refine hr.within fun node hm => ⟨?_, hr.stop_le hm⟩
      have hf := hr.le_outset_of_mem hm
      obtain ⟨⟨signed, hsi⟩, hfl, -⟩ := (hr.laid_of_mem hm).atSign (hs node (.tail _ hm))
      rw [hfl] at hf ⊢
      exact stop_removal_le hl hsi hf rfl
    refine ⟨⟨ho ▸ hst, Nat.lt_of_lt_of_le hlt hg, hb⟩, ⟨hl.boundaries.1, boundary_stop_removal hl⟩, ih hn ?_⟩
    exact fun node hm => hs node (.tail _ hm)

/-- The class that a statement declares lies in the statement. -/
theorem classOf?_laid (h : classOf? statement = some node) (hl : statement.Laid source) :
    node.Laid source ∧ node.span.stop ≤ statement.span.stop ∧
      ∃ isDeclaration modifiers, node.shape = .classNode isDeclaration modifiers := by
  unfold classOf? at h
  split at h
  · cases h
    exact ⟨hl, Nat.le_refl _, _, _, rfl⟩
  · cases h
    obtain ⟨-, hs, hc, -⟩ := row_cons.mp hl.row_parts
    exact ⟨hc, hs, _, _, rfl⟩
  · cases h
    obtain ⟨-, hs, hc, -⟩ := row_cons.mp hl.row_parts
    exact ⟨hc, hs, _, _, rfl⟩
  · cases h

theorem foldl_min_le (starts : List ℕ) (start : ℕ) :
    starts.foldl min start ≤ start ∧ ∀ n ∈ starts, starts.foldl min start ≤ n := by
  induction starts generalizing start with
  | nil => exact ⟨Nat.le_refl _, nofun⟩
  | cons first rest ih =>
    obtain ⟨hf, hr⟩ := ih (min start first)
    rw [foldl_cons]
    refine ⟨by omega, fun n hm => ?_⟩
    rcases mem_cons.mp hm with rfl | hm
    · omega
    · exact hr n hm

theorem boundary_foldl_min {starts : List ℕ} {start : ℕ} (h : Boundary source start)
    (hs : ∀ n ∈ starts, Boundary source n) : Boundary source (starts.foldl min start) := by
  induction starts generalizing start with
  | nil => exact h
  | cons first rest ih =>
    have hf : Boundary source (min start first) := by
      rcases Nat.le_total start first with hl | hl
      · rwa [Nat.min_eq_left hl]
      · rw [Nat.min_eq_right hl]
        exact hs first (.head _)
    exact ih hf fun n hm => hs n (.tail _ hm)

theorem isDecorator_iff : isDecorator node ↔ node.shape = .decorator := by
  simp [isDecorator]

/-- The decorators of a class and of its members are a row in front of the brace that ends the class. -/
theorem row_decorators (hla : node.Laid source) {isDeclaration : Bool} {modifiers : Modifiers}
    (hsh : node.shape = .classNode isDeclaration modifiers)
    (hlo : ∀ d ∈ node.parts.filter isDecorator, lo ≤ d.span.start) (hmk : ∃ d, d ∈ node.parts.filter isDecorator) :
    ∃ brace, brace < node.span.stop ∧ AtBrace source brace ∧
      Row source ((node :: classElements node).flatMap fun holder => holder.parts.filter isDecorator) lo brace := by
  rcases node with ⟨shape, span, parts⟩
  obtain rfl : shape = .classNode isDeclaration modifiers := hsh
  obtain ⟨-, -, -, ⟨others, body, rfl, hb, ho⟩, hp⟩ := (laid_mk_of_mayHoist rfl).mp hla
  obtain ⟨hro, hls⟩ := row_append.mp hp
  obtain ⟨hst, hso, hl, -⟩ := row_cons.mp hls
  rcases body with ⟨bodyShape, bodySpan, members⟩
  obtain rfl : bodyShape = .classBody := hb
  obtain ⟨-, -, hlt, ⟨brace, hbr, ha, hmb⟩, hrb⟩ := (laid_mk_of_isFramed rfl).mp hl
  have hou : (Node.mk .classBody bodySpan members).outset = bodySpan.start := outset_mk_of_not_mayHoist rfl
  rw [hou] at hst
  have he : classElements (.mk (.classNode isDeclaration modifiers) span
      (others ++ [.mk .classBody bodySpan members])) = members := by
    have hn : (others.find? fun part => part.shape == .classBody) = none := by
      simpa using ho
    rw [classElements, Node.parts, find?_append, hn]
    rfl
  have hmr : (others ++ [Node.mk .classBody bodySpan members]).filter isDecorator =
      others.filter isDecorator := by
    rw [filter_append]
    exact append_nil _
  simp only [Node.parts, hmr] at hlo hmk
  have hr : Row source (others.filter isDecorator) lo bodySpan.start := by
    have hs := hro.up_to_stopOf.sublist (filter_sublist (p := isDecorator))
    refine hs.within fun d hd => ⟨?_, Nat.le_trans (hs.stop_le hd) hst⟩
    have hsh := isDecorator_iff.mp (mem_filter.mp hd).2
    rw [((hs.laid_of_mem hd).atSign hsh).2.1]
    exact hlo d hd
  have hrm : Row source (members.flatMap fun holder => holder.parts.filter isDecorator)
      bodySpan.start brace := by
    have hin : Row source members bodySpan.start brace :=
      hrb.within fun member hm => ⟨hrb.le_outset_of_mem hm, hmb member hm⟩
    refine hin.flatMap (by omega) fun member hm => ?_
    exact (hin.laid_of_mem hm).row_parts.sublist filter_sublist
  obtain ⟨d, hd⟩ := hmk
  have hf := hlo d hd
  have hbe := hr.stop_le hd
  have hsp := (hr.laid_of_mem hd).boundaries
  refine ⟨brace, Nat.lt_of_lt_of_le (Nat.lt_of_succ_le (Nat.le_of_eq hbr)) hso, ha, ?_⟩
  rw [flatMap_cons, he, Node.parts, hmr]
  refine row_append.mpr ⟨hr.mono (Nat.le_refl _) (by omega), hrm.mono ?_ (Nat.le_refl _)⟩
  exact stopOf_le hr (Nat.le_refl _) (by omega)

/-- What is known of a class with a marker in a statement. -/
theorem markedClass?_eq_some {span : Span} (h : markedClass? table span node = some marked) :
    marked.node = node ∧ (∃ d, d ∈ node.parts.filter isDecorator) ∧
      marked.span = ⟨((node.parts.filter isDecorator).map fun d => d.span.start).foldl min span.start, span.stop⟩ := by
  obtain ⟨⟨kind, decorator⟩, hm, rfl⟩ := Option.map_eq_some_iff.mp h
  obtain ⟨d, hd, -⟩ := exists_of_findSome?_eq_some hm
  exact ⟨rfl, ⟨d, hd⟩, rfl⟩

/-- **The removals of the markers of a class are separate** and lie in its text. -/
theorem markerEdits_separate (hla : statement.Laid source)
    (h : (classOf? statement).bind (markedClass? table statement.span) = some marked) :
    Separate source (markerEdits source table marked) marked.span.start marked.span.stop ∧
      Boundary source marked.span.start ∧ Boundary source marked.span.stop ∧
      marked.span.start ≤ marked.span.stop := by
  obtain ⟨node, hc, hmk⟩ := Option.bind_eq_some_iff.mp h
  obtain ⟨hl, hsp, isDeclaration, modifiers, hsh⟩ := classOf?_laid hc hla
  obtain ⟨rfl, hso, hs⟩ := markedClass?_eq_some hmk
  obtain ⟨hle, hm⟩ := foldl_min_le ((marked.node.parts.filter isDecorator).map fun d => d.span.start)
    statement.span.start
  have hst : ∀ d ∈ marked.node.parts.filter isDecorator, marked.span.start ≤ d.span.start := by
    intro d hd
    rw [hs]
    exact hm _ (mem_map_of_mem hd)
  obtain ⟨brace, hbr, ha, hr⟩ := row_decorators hl hsh hst hso
  have hb := hla.boundaries
  have hse : Separate source (markerEdits source table marked) marked.span.start brace := by
    refine separate_removals (hr.sublist filter_sublist) (fun d hd => ?_) ha
    obtain ⟨holder, -, hd⟩ := mem_flatMap.mp (mem_filter.mp hd).1
    exact isDecorator_iff.mp (mem_filter.mp hd).2
  refine ⟨hse.mono (Nat.le_refl _) ?_, ?_, ?_, ?_⟩
  · rw [hs]
    exact Nat.le_of_lt (Nat.lt_of_lt_of_le hbr hsp)
  · rw [hs]
    refine boundary_foldl_min hb.1 fun n hn => ?_
    obtain ⟨d, hd, rfl⟩ := mem_map.mp hn
    exact (hl.row_parts.laid_of_mem (mem_filter.mp hd).1).boundaries.1
  · rw [hs]
    exact hb.2.1
  · rw [hs]
    exact Nat.le_trans hle hb.2.2.2

theorem exists_statement_of_mem_markedOf (h : marked ∈ markedOf (nodes.map (unitItem source table))) :
    ∃ statement ∈ nodes, (classOf? statement).bind (markedClass? table statement.span) = some marked := by
  obtain ⟨item, hit, hm⟩ := mem_filterMap.mp h
  obtain ⟨statement, hs, rfl⟩ := mem_map.mp hit
  refine ⟨statement, hs, ?_⟩
  split at hm
  · next value hv =>
    cases hm
    unfold unitItem at hv
    split at hv
    · split at hv <;> cases hv
    · cases hv
    · split at hv
      · cases hv
      · split at hv
        · next found hf =>
          cases hv
          exact hf
        · cases hv
  · cases hm

/-! ### All edits -/

/-- **No edit is lost.** Whatever is spliced while a snippet is read, resolved or updated, and whatever is
spliced into a snippet that stands alone, fits: the edits are disjoint, lie in the spliced span, and replace the
texts of nodes. So do the removals of the markers of a class, which make the text of a provider. Splicing such edits
copies everything else. -/
theorem edits_splice_cleanly (style : UpdateStyle) (r : Resolver) :
    (∀ code kind snippet, Snippet.parse code kind = .ok snippet →
      (∀ span edits, Splices snippet.text style r snippet.root span edits →
        SplicesCleanly snippet.text span edits ∧ OnNodes snippet.root.nodes edits) ∧
      (snippet.standsAlone kind = true →
        (SplicesCleanly snippet.text snippet.user (memberEdits snippet.text r snippet.root) ∧
          OnNodes snippet.root.nodes (memberEdits snippet.text r snippet.root)) ∧
        ∀ edits, updateEdits snippet.text style r false snippet.root = .ok edits →
          SplicesCleanly snippet.text snippet.user edits ∧ OnNodes snippet.root.nodes edits)) ∧
    ∀ source tree table marked, Script.parse? true source = some tree →
      marked ∈ markedOf (tree.root.parts.map (unitItem source table)) →
      SplicesCleanly source marked.span (markerEdits source table marked) ∧
        ∀ name items, (providerOf source table marked name items).source =
          String.ofList (weave source marked.span.start marked.span.stop (markerEdits source table marked)) := by
  refine ⟨fun code kind snippet hp => ⟨fun span edits h => ?_, fun ha => ?_⟩, ?_⟩
  · obtain ⟨hs, hst, hso, hl, hn⟩ := h.separate (Snippet.of_parse hp).1
    exact ⟨hs.splicesCleanly hst hso hl, hn⟩
  · obtain ⟨hst, hso, hl⟩ := Snippet.boundaries hp
    have hc {edits : List Edit} (h : TreeEdits snippet.root edits) :
        SplicesCleanly snippet.text snippet.user edits ∧ OnNodes snippet.root.nodes edits :=
      ⟨(h.separate_user hp ha).splicesCleanly hst hso hl, h.onNodes⟩
    exact ⟨hc (memberEdits_treeEdits _ _ _), fun edits h => hc (updateEdits_treeEdits h)⟩
  · intro source tree table marked hp hm
    obtain ⟨statement, hsa, hcl⟩ := exists_statement_of_mem_markedOf hm
    have hla := (parse?_laid hp).row_parts.laid_of_mem hsa
    obtain ⟨hs, hst, hso, hl⟩ := markerEdits_separate hla hcl
    have hc := hs.splicesCleanly hst hso hl
    exact ⟨hc, fun name items => by rw [providerOf_source, hc.woven]⟩

/-- An update inside the arguments of another one: the edits of both levels are spliced cleanly. -/
theorem edits_splice_cleanly_nested : ∃ snippet edits,
    Snippet.parse "this.items.push(this.user.name = this.n, 'é')" .expression = .ok snippet ∧
      snippet.standsAlone .expression = true ∧
      updateEdits snippet.text (.invalidate fun member => some ("this." ++ member)) .unresolved false
        snippet.root = .ok edits ∧ edits.length = 1 ∧ SplicesCleanly snippet.text snippet.user edits := by
  have hp : (Snippet.parse? "this.items.push(this.user.name = this.n, 'é')" .expression).any (fun snippet =>
      snippet.standsAlone .expression &&
        match updateEdits snippet.text (.invalidate fun member => some ("this." ++ member)) .unresolved false
          snippet.root with
        | .ok edits => edits.length == 1
        | .error _ => false) = true := by decide +kernel
  obtain ⟨snippet, hs, ht⟩ := Snippet.exists_parse_of_any hp
  rw [Bool.and_eq_true] at ht
  obtain ⟨ha, he⟩ := ht
  split at he
  · next edits ho =>
    refine ⟨snippet, edits, hs, ha, ho, by simpa using he, ?_⟩
    exact (((edits_splice_cleanly _ _).1 _ _ _ hs).2 ha |>.2 edits ho).1
  · cases he

end Polyview
