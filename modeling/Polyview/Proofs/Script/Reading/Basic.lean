import Polyview.Proofs.Script.Cursor
import Polyview.Proofs.Script.Layout
import Polyview.Proofs.Script.Run

/-! # What rules read

A rule *lays* what it returns if from every cursor on a text it comes to a cursor on that text, not before
the first, and the nodes that it returns are laid out between the two. That all rules of the grammar do so is
shown rule by rule: each is a sequence of steps, and the steps leave the nodes in the order in which they were
read. What the steps have in common is stated here, with the loops. -/

namespace Polyview.Script

open List

variable {α β : Type} {source : List Char} {context : Context} {c c' c'' : Cursor} {node : Node} {nodes : List Node}
  {a : α} {bad : Bool} {c₀ : Cursor} {rule : Parse Node} {scan : List Char → Scanned} {sign : Punct} {start : ℕ}

/-! ### Steps -/

/-- A cursor on a text is not behind another. -/
structure Leads (source : List Char) (c c' : Cursor) : Prop where
  on : c'.On source
  prev : c.prevStop ≤ c'.prevStop
  start : c.token.span.start ≤ c'.token.span.start

/-- Nodes are laid out from an offset up to the last token before a cursor, which is not behind another. -/
structure Reads (source : List Char) (start : ℕ) (c : Cursor) (nodes : List Node) (c' : Cursor) : Prop where
  leads : Leads source c c'
  row : Row source nodes start c'.prevStop

/-- A node is laid out from an offset up to a cursor, and at least one token was read. -/
structure ReadsLoose (source : List Char) (start : ℕ) (c : Cursor) (node : Node) (c' : Cursor) : Prop where
  leads : Leads source c c'
  lt : start < c'.prevStop
  row : Row source [node] start c'.prevStop

/-- The same for a node that is not empty and whose text does not start before its span. -/
structure ReadsNode (source : List Char) (start : ℕ) (c : Cursor) (node : Node) (c' : Cursor) : Prop where
  leads : Leads source c c'
  lt : start < c'.prevStop
  wide : node.span.start < node.span.stop
  flush : node.outset = node.span.start
  row : Row source [node] start c'.prevStop

@[grind →]
theorem Reads.facts (h : Reads source start c nodes c') : c'.On source ∧
    c.prevStop ≤ c'.prevStop ∧ c.token.span.start ≤ c'.token.span.start ∧ Row source nodes start c'.prevStop :=
  ⟨h.leads.on, h.leads.prev, h.leads.start, h.row⟩

@[grind →]
theorem ReadsNode.facts (h : ReadsNode source start c node c') : c'.On source ∧
    c.prevStop ≤ c'.prevStop ∧ c.token.span.start ≤ c'.token.span.start ∧ start < c'.prevStop ∧
      node.span.start < node.span.stop ∧ start ≤ node.span.start ∧ node.outset = node.span.start ∧
      node.span.stop ≤ c'.prevStop ∧ node.Laid source := by
  obtain ⟨hst, hs, hl, -⟩ := row_cons.mp h.row
  exact ⟨h.leads.on, h.leads.prev, h.leads.start, h.lt, h.wide, h.flush ▸ hst, h.flush, hs, hl⟩

@[grind →]
theorem ReadsLoose.facts (h : ReadsLoose source start c node c') : c'.On source ∧
    c.prevStop ≤ c'.prevStop ∧ c.token.span.start ≤ c'.token.span.start ∧ start < c'.prevStop ∧
      start ≤ node.outset ∧ node.span.stop ≤ c'.prevStop ∧ node.Laid source := by
  obtain ⟨hst, hs, hl, -⟩ := row_cons.mp h.row
  exact ⟨h.leads.on, h.leads.prev, h.leads.start, h.lt, hst, hs, hl⟩

theorem ReadsNode.loose {lo : ℕ} (h : ReadsNode source start c node c') (hl : lo ≤ start) :
    ReadsLoose source lo c node c' :=
  ⟨h.leads, Nat.lt_of_le_of_lt hl h.lt, h.row.mono hl (Nat.le_refl _)⟩

/-- A class or an export that starts at an offset, with parts that may have been read from an earlier one on. -/
theorem ReadsLoose.of_mayHoist {shape : Shape} {lo : ℕ} (hs : shape.mayHoist) (hld : Leads source c c')
    (hlo : lo ≤ start) (hst : Boundary source start) (hlt : start < c'.prevStop)
    (hp : Row source nodes lo c'.prevStop) (hr : shape.Requires source ⟨start, c'.prevStop⟩ nodes) :
    ReadsLoose source lo c (.mk shape ⟨start, c'.prevStop⟩ nodes) c' := by
  have hl : (Node.mk shape ⟨start, c'.prevStop⟩ nodes).Laid source :=
    (laid_mk_of_mayHoist hs).mpr
      ⟨hst, hld.on.prev, hlt, hr, hp.from_outset hs⟩
  refine ⟨hld, Nat.lt_of_le_of_lt hlo hlt, ?_⟩
  exact row_cons.mpr ⟨le_outset hp hlo, Nat.le_refl _, hl, row_nil.mpr trivial⟩

attribute [grind →] Leads.on Leads.prev Leads.start
attribute [grind] Leads Reads ReadsLoose ReadsNode

/-! ### Cursors -/

attribute [grind →] Cursor.On.prev Cursor.On.prev_le Cursor.On.le
attribute [grind =] TokenKind.isSolid Cursor.prevStop_next

grind_pattern Cursor.On.solid => c.On source

/-- Names the text, so that what is known of the steps on it is at hand at once. -/
@[grind →]
theorem Cursor.On.text (_ : c.On source) : Follows source 0 source := follows_zero source

grind_pattern Cursor.On.next => c.next, Follows source 0 source

@[grind →]
theorem Cursor.On.start_boundary (h : c.On source) : Boundary source c.token.span.start := h.here.boundary

/-- The spelling of a sign that is written in one way. -/
theorem Cursor.On.spelled {spelling : List Char} (h : c.On source) (hs : c.token.kind = .punct sign)
    (ho : ∀ entry ∈ spellings, entry.2 = sign → entry.1 = spelling) :
    Follows source c.token.span.start (spelling ++ c.rest) := by
  obtain ⟨other, hm, hh⟩ := h.sign sign hs
  rw [← ho _ hm rfl, ← hh]
  exact h.here

@[grind →]
theorem Cursor.On.at_decorator (h : c.On source) (hs : c.token.kind = .punct .decorator) :
    AtSign source c.token.span.start := by
  have ho : ∀ entry ∈ spellings, entry.2 = .decorator → entry.1 = ['@'] := by decide
  exact ⟨c.rest, h.spelled hs ho⟩

@[grind →]
theorem Cursor.On.at_brace (h : c.On source) (hs : c.token.kind = .punct .rbrace) :
    AtBrace source c.token.span.start ∧ c.token.span.start + 1 = c.token.span.stop := by
  have ho : ∀ entry ∈ spellings, entry.2 = .rbrace → entry.1 = ['\x7d'] := by decide
  have hh := h.spelled hs ho
  obtain ⟨taken, ht, hsi⟩ := hh.exists_takes h.rest h.le
  obtain rfl := append_cancel_right ht
  have hl := h.le
  have hon : Text.byteLength ['\x7d'] = 1 := rfl
  exact ⟨⟨c.rest, hh⟩, by omega⟩

@[grind =]
theorem Cursor.token_flag : (c.flag bad).token = c.token := rfl

@[grind =]
theorem Cursor.prevStop_flag : (c.flag bad).prevStop = c.prevStop := rfl

theorem Cursor.On.flag (h : c.On source) : (c.flag bad).On source :=
  ⟨h.here, h.rest, h.prev, h.prev_le, h.le, h.solid, h.sign, h.plain⟩

grind_pattern Cursor.On.flag => c.flag bad, Follows source 0 source

@[grind =]
theorem Cursor.start_rescan : (c.rescan scan).token.span.start = c.token.span.start := rfl

@[grind =]
theorem Cursor.prevStop_rescan : (c.rescan scan).prevStop = c.prevStop := rfl

theorem Cursor.On.rescan_less (h : c.On source) : (c.rescan scanLess).On source := h.rescan (fits_scanLess _)

grind_pattern Cursor.On.rescan_less => c.rescan scanLess, Follows source 0 source

/-- A sign is read again as the start of another token, which starts with the same character. -/
theorem Cursor.On.rescan_behind (first : Char) (h : c.On source) (hs : c.token.kind = .punct sign)
    (ho : ∀ entry ∈ spellings, entry.2 = sign → entry.1.head? = some first)
    (hf : ∀ cs, (scan cs).Fits (first :: cs)) : (c.rescan fun cs => scan (cs.drop 1)).On source := by
  obtain ⟨spelling, hm, hh⟩ := h.sign sign hs
  obtain ⟨more, rfl⟩ := head?_eq_some_iff.mp (ho _ hm rfl)
  refine h.rescan ?_
  simp only [hh, cons_append, drop_one, tail_cons]
  exact hf _

theorem Cursor.On.rescan_template (h : c.On source) (hs : c.token.kind = .punct .rbrace) :
    (c.rescan fun cs => scanTemplate (cs.drop 1)).On source := by
  have ho : ∀ entry ∈ spellings, entry.2 = .rbrace → entry.1.head? = some '\x7d' := by decide
  exact h.rescan_behind _ hs ho fun cs => fits_scanTemplate cs rfl

theorem TokenKind.isSolid_of_keyword? {kind : TokenKind} {keyword : Keyword}
    (h : kind.keyword? = some keyword) : kind.isSolid := by
  cases kind <;> first | rfl | cases h

grind_pattern TokenKind.isSolid_of_keyword? => kind.keyword?, some keyword

/-! ### Rules -/

/-- A test that only looks ahead. -/
def Stays (test : Parse Bool) : Prop :=
  ∀ ⦃context : Context⦄ ⦃c : Cursor⦄ ⦃yes : Bool⦄ ⦃c' : Cursor⦄, Runs test context c yes c' → c' = c

/-- A rule lays out nodes, which its result holds. -/
def Lays (nodes : α → List Node) (rule : Parse α) : Prop :=
  ∀ ⦃source : List Char⦄ ⦃context : Context⦄ ⦃c : Cursor⦄ ⦃a : α⦄ ⦃c' : Cursor⦄,
    Runs rule context c a c' → c.On source → Reads source c.token.span.start c (nodes a) c'

/-- A rule lays out the node that it returns. -/
def LaysNode (rule : Parse Node) : Prop :=
  ∀ ⦃source : List Char⦄ ⦃context : Context⦄ ⦃c : Cursor⦄ ⦃node : Node⦄ ⦃c' : Cursor⦄,
    Runs rule context c node c' → c.On source → ReadsNode source c.token.span.start c node c'

/-- A rule lays out the node that it returns, which may be an export. -/
def LaysStatement (rule : Parse Node) : Prop :=
  ∀ ⦃source : List Char⦄ ⦃context : Context⦄ ⦃c : Cursor⦄ ⦃node : Node⦄ ⦃c' : Cursor⦄,
    Runs rule context c node c' → c.On source → ReadsLoose source c.token.span.start c node c'

/-- A rule lays out the node that it may return. -/
def LaysSome (rule : Parse (Option Node)) : Prop :=
  ∀ ⦃source : List Char⦄ ⦃context : Context⦄ ⦃c : Cursor⦄ ⦃found : Option Node⦄ ⦃c' : Cursor⦄,
    Runs rule context c found c' → c.On source →
      (∀ node, found = some node → ReadsNode source c.token.span.start c node c') ∧ (found = none → Leads source c c')

/-- A rule that returns no nodes does not go back. -/
def Advances (rule : Parse α) : Prop :=
  ∀ ⦃source : List Char⦄ ⦃context : Context⦄ ⦃c : Cursor⦄ ⦃a : α⦄ ⦃c' : Cursor⦄,
    Runs rule context c a c' → c.On source → Leads source c c'

/-- A rule reads at least one token, and returns no nodes. -/
def Moves (rule : Parse α) : Prop :=
  ∀ ⦃source : List Char⦄ ⦃context : Context⦄ ⦃c : Cursor⦄ ⦃a : α⦄ ⦃c' : Cursor⦄,
    Runs rule context c a c' → c.On source → Leads source c c' ∧ c.token.span.start < c'.prevStop

theorem Stays.apply {test : Parse Bool} (h : Stays test) {yes : Bool} (hr : Runs test context c yes c') : c' = c := h hr

theorem LaysNode.apply (h : LaysNode rule) (hr : Runs rule context c node c') (hc : c.On source) :
    ReadsNode source c.token.span.start c node c' := h hr hc

theorem LaysStatement.apply (h : LaysStatement rule) (hr : Runs rule context c node c') (hc : c.On source) :
    ReadsLoose source c.token.span.start c node c' := h hr hc

theorem LaysNodes.apply {rule : Parse (List Node)} (h : Lays id rule) (hr : Runs rule context c nodes c')
    (hc : c.On source) : Reads source c.token.span.start c nodes c' := h hr hc

theorem LaysLists.apply {rule : Parse (List (List Node))} (h : Lays List.flatten rule) {lists : List (List Node)}
    (hr : Runs rule context c lists c') (hc : c.On source) :
    Reads source c.token.span.start c lists.flatten c' := h hr hc

theorem Lays.apply {nodesOf : α → List Node} {rule : Parse α} (h : Lays nodesOf rule) (hr : Runs rule context c a c')
    (hc : c.On source) : Reads source c.token.span.start c (nodesOf a) c' := h hr hc

theorem LaysSome.apply_some {rule : Parse (Option Node)} (h : LaysSome rule)
    (hr : Runs rule context c (some node) c') (hc : c.On source) :
    ReadsNode source c.token.span.start c node c' := (h hr hc).1 node rfl

theorem LaysSome.apply_none {rule : Parse (Option Node)} (h : LaysSome rule)
    (hr : Runs rule context c none c') (hc : c.On source) : Leads source c c' := (h hr hc).2 rfl

theorem Advances.apply {rule : Parse α} (h : Advances rule) (hr : Runs rule context c a c') (hc : c.On source) :
    Leads source c c' := h hr hc

theorem Moves.apply {rule : Parse α} (h : Moves rule) (hr : Runs rule context c a c') (hc : c.On source) :
    Leads source c c' ∧ c.token.span.start < c'.prevStop := h hr hc

grind_pattern Stays.apply => Runs test context c yes c'
grind_pattern LaysNode.apply => Runs rule context c node c', Follows source 0 source
grind_pattern LaysStatement.apply => Runs rule context c node c', Follows source 0 source
grind_pattern LaysNodes.apply => Runs rule context c nodes c', Follows source 0 source
grind_pattern LaysLists.apply => Runs rule context c lists c', Follows source 0 source
grind_pattern Lays.apply => Lays nodesOf rule, Runs rule context c a c', Follows source 0 source
grind_pattern LaysSome.apply_some => Runs rule context c (some node) c', Follows source 0 source
grind_pattern LaysSome.apply_none => Runs rule context c none c', Follows source 0 source
grind_pattern Advances.apply => Runs rule context c a c', Follows source 0 source
grind_pattern Moves.apply => Runs rule context c a c', Follows source 0 source

/-- A rule goes on with a node that began at an offset with some parts, and lays out what it returns from that
offset on. -/
@[grind =]
def Grows (source : List Char) (start : ℕ) (parts : List Node) (c : Cursor) (node : Node) (c' : Cursor) : Prop :=
  Boundary source start → start ≤ c.token.span.start →
    Row source parts start c.prevStop → ReadsNode source start c node c'

/-- The same for a rule that returns several nodes. -/
@[grind =]
def GrowsAll (source : List Char) (start : ℕ) (parts : List Node) (c : Cursor) (nodes : List Node)
    (c' : Cursor) : Prop :=
  Boundary source start → start ≤ c.token.span.start → Row source parts start c.prevStop → Reads source start c nodes c'

/-- A rule goes on behind a node that began at an offset, and returns a node that begins there as well. -/
@[grind =]
def Extends (source : List Char) (start : ℕ) (head : Node) (c : Cursor) (node : Node) (c' : Cursor) : Prop :=
  Boundary source start → start < c.prevStop → head.span.start < head.span.stop →
    head.outset = head.span.start → Row source [head] start c.prevStop → ReadsNode source start c node c'

/-- The rules through which a grammar is recursive lay out what they return. -/
class Grammar.Sound (g : Grammar) : Prop where
  expression : LaysNode g.expression
  assignment : ∀ allowReturn, LaysNode (g.assignment allowReturn)
  binary : ∀ level, LaysNode (g.binary level)
  unary : LaysNode g.unary
  leftHandSide : LaysNode g.leftHandSide
  constructed : LaysNode g.constructed
  pattern : LaysNode g.pattern
  type : LaysNode g.type
  typeOperand : LaysNode g.typeOperand
  statement : LaysStatement g.statement
  markup : ∀ inside, LaysNode (g.markup inside)
  isMarkup : ∀ {inside context c node c'}, Runs (g.markup inside) context c node c' → node.shape.isMarkup = true

attribute [grind ←] Grammar.Sound.expression Grammar.Sound.assignment Grammar.Sound.binary
  Grammar.Sound.unary Grammar.Sound.leftHandSide Grammar.Sound.constructed Grammar.Sound.pattern
  Grammar.Sound.type Grammar.Sound.typeOperand Grammar.Sound.statement Grammar.Sound.markup
attribute [grind →] Grammar.Sound.isMarkup

/-! ### Loops -/

theorem Reads.nil (hc : c.On source) : Reads source c.token.span.start c [] c :=
  ⟨⟨hc, Nat.le_refl _, Nat.le_refl _⟩, row_nil.mpr trivial⟩

theorem Reads.append {more : List Node} (h : Reads source c.token.span.start c nodes c')
    (h' : Reads source c'.token.span.start c' more c'') : Reads source c.token.span.start c (nodes ++ more) c'' := by
  grind

theorem Reads.of_leads (h : Reads source c'.token.span.start c' nodes c'') (hl : Leads source c c') :
    Reads source c.token.span.start c nodes c'' := by
  grind

theorem LaysNode.lays (h : LaysNode rule) : Lays (fun node => [node]) rule :=
  fun _ _ _ _ _ hr hc => ⟨(h hr hc).leads, (h hr hc).row⟩

theorem LaysStatement.lays (h : LaysStatement rule) : Lays (fun node => [node]) rule :=
  fun _ _ _ _ _ hr hc => ⟨(h hr hc).leads, (h hr hc).row⟩

section Loops

variable {nodesOf : α → List Node} {item : Parse α} {stop : Parse Bool} {items : List α}

theorem reads_readUntil (hs : Advances stop) (hi : Lays nodesOf item) (n : ℕ) (before : List α)
    (h : Runs (readUntil stop item n before) context c items c') (hc : c.On source) :
    ∃ found, items = before.reverse ++ found ∧ Reads source c.token.span.start c (found.flatMap nodesOf) c' := by
  induction n generalizing before c with
  | zero => simp [readUntil] at h
  | succ n ih =>
    simp only [readUntil, runs_bind, runs_ite, runs_pure] at h
    obtain ⟨stops, c₁, hlo, h⟩ := h
    have hl := hs hlo hc
    split at h
    · obtain ⟨rfl, rfl⟩ := h
      exact ⟨[], by simp, hl, row_nil.mpr trivial⟩
    · obtain ⟨a, c₂, hru, hre⟩ := h
      have hr := (hi hru hl.on).of_leads hl
      obtain ⟨found, rfl, hf⟩ := ih _ hre hr.leads.on
      exact ⟨a :: found, by simp, hr.append hf⟩

theorem lays_manyUntil (hs : Advances stop) (hi : Lays nodesOf item) :
    Lays (List.flatMap nodesOf) (manyUntil stop item) := by
  intro _ context c items c' h hc
  replace h : Runs (readUntil stop item context.bound []) context c items c' := by
    simpa [manyUntil] using h
  obtain ⟨found, rfl, hf⟩ := reads_readUntil hs hi _ _ h hc
  exact hf

@[grind ←]
theorem Stays.advances {test : Parse Bool} (h : Stays test) : Advances test := by
  intro source context c yes c' hr hc
  cases h hr
  exact ⟨hc, Nat.le_refl _, Nat.le_refl _⟩

@[grind .]
theorem stays_ahead (test : Parse Bool) : Stays (ahead test) := fun _ _ _ _ h => (runs_ahead.mp h).1

@[grind .]
theorem stays_nextIs (test : Token → Bool) : Stays (nextIs test) := stays_ahead _

@[grind .]
theorem stays_sees (sign : Punct) : Stays (sees sign) := fun _ _ _ _ h => (runs_sees.mp h).1

@[grind .]
theorem stays_not_sees (sign : Punct) : Stays (do return !(← sees sign)) := by
  intro _ _ _ _ h
  grind

theorem lays_commaList (close : Punct) (hi : Lays nodesOf item) :
    Lays (List.flatMap nodesOf) (commaList close item) := by
  refine lays_manyUntil (stays_sees close).advances fun source context c a c' h hc => ?_
  simp only [runs_bind] at h
  obtain ⟨a, c₁, hru, h⟩ := h
  have hr := hi hru hc
  have ho := hr.leads.on
  grind

theorem lays_commaList_map {nodeOf : α → Node} (close : Punct)
    (hi : Lays (fun item => [nodeOf item]) item) : Lays (List.map nodeOf) (commaList close item) := by
  intro _ _ _ _ _ h hc
  rw [map_eq_flatMap]
  exact lays_commaList close hi h hc

@[grind ←]
theorem Advances.commaList (hi : Advances item) (close : Punct) : Advances (commaList close item) := by
  intro _ _ _ _ _ h hc
  have hl : Lays (fun _ => []) item := fun _ _ _ _ _ h hc => ⟨hi h hc, row_nil.mpr trivial⟩
  exact (lays_commaList close hl h hc).leads

@[grind ←]
theorem LaysNode.manyUntil (hi : LaysNode rule) (hs : Advances stop) : Lays id (manyUntil stop rule) := by
  intro _ _ _ _ _ h hc
  have hr := lays_manyUntil hs hi.lays h hc
  rwa [flatMap_singleton'] at hr

@[grind ←]
theorem LaysStatement.manyUntil (hi : LaysStatement rule) (hs : Advances stop) : Lays id (manyUntil stop rule) := by
  intro _ _ _ _ _ h hc
  have hr := lays_manyUntil hs hi.lays h hc
  rwa [flatMap_singleton'] at hr

@[grind ←]
theorem LaysNode.commaList (hi : LaysNode rule) (close : Punct) : Lays id (commaList close rule) := by
  intro _ _ _ _ _ h hc
  have hr := lays_commaList close hi.lays h hc
  rwa [flatMap_singleton'] at hr

/-- What holds of every item that is read from a cursor of some kind holds of all items of a list. -/
theorem forall_manyUntil (P : α → Prop) (Q : Cursor → Prop)
    (hs : ∀ {c yes c'}, Q c → Runs stop context c yes c' → Q c')
    (hi : ∀ {c a c'}, Q c → Runs item context c a c' → P a ∧ Q c')
    (h : Runs (manyUntil stop item) context c items c') (hc : Q c) : ∀ a ∈ items, P a := by
  replace h : Runs (readUntil stop item context.bound []) context c items c' := by
    simpa [manyUntil] using h
  have hb : ∀ a ∈ ([] : List α), P a := nofun
  generalize ([] : List α) = before at h hb
  generalize context.bound = n at h
  induction n generalizing before c with
  | zero => simp [readUntil] at h
  | succ n ih =>
    simp only [readUntil, runs_bind, runs_ite, runs_pure] at h
    obtain ⟨stops, c₁, hl, h⟩ := h
    split at h
    · obtain ⟨rfl, rfl⟩ := h
      exact fun a hm => hb a (mem_reverse.mp hm)
    · obtain ⟨a, c₂, hru, hr⟩ := h
      obtain ⟨ha, hc₂⟩ := hi (hs hc hl) hru
      refine ih hc₂ _ (fun other hm => ?_) hr
      rcases mem_cons.mp hm with rfl | hm
      · exact ha
      · exact hb other hm

/-- Nodes that are not statements start with their spans. -/
theorem LaysNode.flush_commaList (hi : LaysNode rule) {close : Punct}
    (h : Runs (Script.commaList close rule) context c nodes c') (hc : c.On source) : Flush nodes := by
  refine forall_manyUntil _ (Cursor.On source) (fun hc hl => ?_) (fun hc hr => ?_) h hc
  · exact ((stays_sees close).advances hl hc).on
  · simp only [runs_bind] at hr
    obtain ⟨node, c₁, hr, hrs⟩ := hr
    have hre := hi hr hc
    have ho := hre.leads.on
    grind

grind_pattern LaysNode.flush_commaList => Runs (Script.commaList close rule) context c nodes c', Follows source 0 source

@[grind ←]
theorem Lays.commaList {rule : Parse (List Node)} (hi : Lays id rule) (close : Punct) :
    Lays List.flatten (commaList close rule) := by
  intro _ _ _ _ _ h hc
  have hr := lays_commaList close hi h hc
  rwa [flatMap_id] at hr

/-- What every step of a repetition keeps holds at its end. -/
theorem Runs.extendWith (keeps : α → Cursor → Prop) {step : α → Parse (Option α)} {n : ℕ} {value result : α}
    (hs : ∀ {value c found c'}, keeps value c → Runs (step value) context c found c' → keeps (found.getD value) c')
    (h : Runs (extendWith step n value) context c result c') (hv : keeps value c) : keeps result c' := by
  induction n generalizing value c with
  | zero => simp [Script.extendWith] at h
  | succ n ih =>
    rw [Script.extendWith, runs_bind] at h
    obtain ⟨found, c₁, hr, h⟩ := h
    have hk := hs hv hr
    cases found with
    | none =>
      obtain ⟨rfl, rfl⟩ := runs_pure.mp h
      exact hk
    | some extended => exact ih h hk

theorem Runs.extend (keeps : α → Cursor → Prop) {step : α → Parse (Option α)} {value result : α}
    (hs : ∀ {value c found c'}, keeps value c → Runs (step value) context c found c' → keeps (found.getD value) c')
    (h : Runs (extend value step) context c result c') (hv : keeps value c) : keeps result c' := by
  simp only [Script.extend, runs_bind, runs_read] at h
  obtain ⟨_, _, ⟨rfl, rfl⟩, h⟩ := h
  exact Runs.extendWith keeps hs h hv

/-- Nodes that were read one after the other, the last in front. -/
structure ReadsReverse (source : List Char) (start : ℕ) (c : Cursor) (nodes : List Node) (c' : Cursor) : Prop where
  leads : Leads source c c'
  lt : start < c'.prevStop
  firm : ∀ node ∈ nodes, node.span.start < node.span.stop ∧ node.outset = node.span.start
  row : Row source nodes.reverse start c'.prevStop

attribute [grind →] ReadsReverse.leads ReadsReverse.lt ReadsReverse.row
attribute [grind] ReadsReverse

/-- One more node behind those that were read. -/
theorem ReadsReverse.cons (h : ReadsReverse source start c₀ nodes c) (hl : Leads source c c')
    (hn : ReadsNode source c'.token.span.start c' node c'') : ReadsReverse source start c₀ (node :: nodes) c'' := by
  have ho := hl.on
  refine ⟨by grind, by grind, ?_, ?_⟩
  · exact forall_mem_cons.mpr ⟨⟨hn.wide, hn.flush⟩, h.firm⟩
  · rw [reverse_cons, row_append]
    have hr := h.row
    grind

theorem ReadsReverse.trans (h : ReadsReverse source start c₀ nodes c) (hl : Leads source c c') :
    ReadsReverse source start c₀ nodes c' := by
  refine ⟨by grind, by grind, h.firm, ?_⟩
  exact h.row.mono (Nat.le_refl _) hl.prev

/-- What is read between signs, each of which is followed by another item. -/
theorem reads_separated (hi : LaysNode rule) {before : List Node} (h : Runs (Script.extend before fun items => do
      if ← eat sign then
        let value ← rule
        return some (value :: items)
      else return none) context c nodes c') (hr : ReadsReverse source start c₀ before c) :
    ReadsReverse source start c₀ nodes c' := by
  refine Runs.extend (ReadsReverse source start c₀) ?_ h hr
  intro nodes c₁ found c₂ hr hs
  have ho := hr.leads.on
  simp only [runs_bind, runs_eat, runs_ite, runs_pure] at hs
  obtain ⟨more, c₃, hm, hs⟩ := hs
  split at hm
  · obtain ⟨rfl, rfl⟩ := hm
    obtain ⟨value, _, hru, rfl, rfl⟩ := hs
    exact hr.cons (by grind) (hi hru ho.next)
  · obtain ⟨rfl, rfl⟩ := hm
    obtain ⟨rfl, rfl⟩ := hs
    exact hr

theorem LaysNode.reads_commaList1 (hit : LaysNode rule) (h : Runs (Script.commaList1 rule) context c nodes c')
    (hc : c.On source) : Reads source c.token.span.start c nodes c' ∧ c.token.span.start < c'.prevStop := by
  simp only [Script.commaList1, runs_bind] at h
  obtain ⟨first, c₁, hf, items, c₂, hi, h⟩ := h
  have hr : ReadsReverse source c.token.span.start c items c₂ := reads_separated hit hi (by grind)
  grind

@[grind ←]
theorem LaysNode.commaList1 (hi : LaysNode rule) : Lays id (commaList1 rule) :=
  fun _ _ _ _ _ h hc => (hi.reads_commaList1 h hc).1

@[grind ←]
theorem LaysNode.moves_commaList1 (hi : LaysNode rule) : Moves (Script.commaList1 rule) :=
  fun _ _ _ _ _ h hc => ⟨(hi.reads_commaList1 h hc).1.leads, (hi.reads_commaList1 h hc).2⟩

end Loops

/-! ### Names -/

@[grind .]
theorem moves_anyName : Moves anyName := by
  intro _ _ _ _ _ h hc
  rw [anyName, runs_tokenKind_bind] at h
  split at h <;> grind

@[grind .]
theorem moves_identifier : Moves identifier := by
  intro _ _ _ _ _ h hc
  rw [identifier, runs_tokenKind_bind] at h
  split at h <;> grind

@[grind .]
theorem lays_reference : LaysNode reference := by
  intro _ _ _ _ _ h hc
  unfold reference at h
  grind

@[grind .]
theorem lays_binding : LaysNode binding := by
  intro _ _ _ _ _ h hc
  unfold binding at h
  grind

@[grind .]
theorem lays_plainName : LaysNode plainName := by
  intro _ _ _ _ _ h hc
  unfold plainName at h
  grind

end Polyview.Script
