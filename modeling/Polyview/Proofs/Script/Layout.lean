import Polyview.Proofs.Script.Precedence
import Polyview.Proofs.Script.Scan

/-! # The layout of trees

A tree is *laid* out on a text if its nodes are nested like their texts: the parts of a node lie inside of
its text, one behind the other, and all spans start and end at boundaries of the source. A node covers at
least one character. Of some shapes more is known: a decorator starts with `@`, the body of a class is its
last part and ends with a brace behind its members, a method ends in its key and its function, an element starts with
its opening tag, `this` has no parts, text between tags holds no brackets, and the parts of conditionals, accesses and
arrow functions bind tight enough to stand there without parentheses.

The text of a node is that of its span, with one exception: decorators may stand in front of the `export` of a
class. They are parts of the class, but precede the spans of both. The `outset` of a node is where its text
starts, such decorators included. -/

namespace Polyview.Script

open List

variable {parts : List Node} {shape : Shape} {span : Span}

/-- Shapes of nodes that may cover nothing. -/
def Shape.mayBeEmpty : Shape → Bool
  | .jsxEmpty => true
  | .program => true
  | _ => false

/-- Shapes of exports of a declaration. -/
def Shape.isExport : Shape → Bool
  | .exportNamed _ => true
  | .exportDefault => true
  | _ => false

/-- Shapes of nodes whose text may start before their span: classes, and their exports. -/
def Shape.mayHoist : Shape → Bool
  | .exportNamed _ => true
  | .exportDefault => true
  | .classNode _ _ => true
  | _ => false

/-- Shapes of nodes of which more is known than their spans and parts. -/
def Shape.isFramed : Shape → Bool
  | .decorator | .classBody | .this | .method _ _ _ | .assign _ | .arguments => true
  | .jsxElement | .jsxFragment | .jsxAttribute _ | .jsxContainer | .jsxText => true
  | shape => shape.isGrouped

/-- Shapes of nodes of which nothing is said beyond their spans and parts. -/
def Shape.isPlain (shape : Shape) : Bool := !shape.mayBeEmpty && !shape.mayHoist && !shape.isFramed

/-- Shapes of the names of tags. -/
def Shape.isTagName : Shape → Bool
  | .this | .reference _ | .name _ | .jsxNamespaced _ _ | .jsxMember _ => true
  | _ => false

/-- Shapes of what stands in an opening tag behind its name. -/
def Shape.isTagItem : Shape → Bool
  | .jsxAttribute _ | .jsxSpreadAttribute | .typeArguments => true
  | _ => false

/-- Shapes of markup. -/
def Shape.isMarkup : Shape → Bool
  | .jsxElement | .jsxFragment => true
  | _ => false

/-- Shapes of what stands behind an opening tag. -/
def Shape.isContent : Shape → Bool
  | .jsxText | .jsxContainer | .jsxSpreadChild | .jsxClosing => true
  | shape => shape.isMarkup

/-- Where the text of a node starts. -/
def Node.outset : Node → ℕ
  | .mk shape span (first :: _) => if shape.mayHoist then min span.start first.outset else span.start
  | .mk _ span [] => span.start

/-- The sign of decorators starts at an offset. -/
def AtSign (source : List Char) (offset : ℕ) : Prop := ∃ rest, Follows source offset ('@' :: rest)

/-- A closing brace starts at an offset. -/
def AtBrace (source : List Char) (offset : ℕ) : Prop := ∃ rest, Follows source offset ('\x7d' :: rest)

/-- A text without brackets lies between two offsets. -/
def Plain (source : List Char) (start stop : ℕ) : Prop :=
  ∃ text rest, Follows source start text ∧ Follows source stop rest ∧ Unmarked text rest

/-- The texts of trees start with their spans. -/
def Flush (nodes : List Node) : Prop := ∀ node ∈ nodes, node.outset = node.span.start

/-- The members of a class end before the brace at the end of its body. -/
def ClosedBy (source : List Char) (nodes : List Node) (stop : ℕ) : Prop :=
  ∃ brace, brace + 1 = stop ∧ AtBrace source brace ∧ ∀ node ∈ nodes, node.span.stop ≤ brace

/-- Trees are decorators. -/
def Decorators (nodes : List Node) : Prop := ∀ node ∈ nodes, node.shape = .decorator

/-- The last of some trees is the body of a class, and no other is. -/
def EndsInBody (nodes : List Node) : Prop :=
  ∃ others body, nodes = others ++ [body] ∧ body.shape = .classBody ∧ ∀ node ∈ others, node.shape ≠ .classBody

/-- Some trees are decorators, and behind them a key and a function. -/
def EndsInFunction (nodes : List Node) : Prop :=
  ∃ marks key function, nodes = marks ++ [key, function] ∧ Decorators marks ∧ key.shape ≠ .decorator ∧
    function.shape ≠ .decorator

/-- Trees may stand between tags. -/
def Content (nodes : List Node) : Prop := ∀ node ∈ nodes, node.shape.isContent = true

/-- Trees may stand in a tag behind its name. -/
def TagItems (nodes : List Node) : Prop := ∀ node ∈ nodes, node.shape.isTagItem = true

/-- The first of some trees is an opening tag, which starts with its name, and none follows if it closes itself. -/
def StartsWithTag (nodes : List Node) : Prop :=
  ∃ selfClosing span name items rest, nodes = .mk (.jsxOpening selfClosing) span (name :: items) :: rest ∧
    name.shape.isTagName = true ∧ TagItems items ∧ Content rest ∧ (selfClosing = true → rest = [])

/-- A tree may be the value of an attribute: a string, markup, or something in braces. -/
def IsAssigned (node : Node) : Prop :=
  (∃ value legacy span, node = .mk (.string value legacy) span []) ∨ node.shape = .jsxContainer ∨
    node.shape.isMarkup = true

/-- What is required of the nodes of some shapes. -/
def Shape.Requires (source : List Char) (shape : Shape) (span : Span) (parts : List Node) : Prop :=
  match shape with
  | .decorator => AtSign source span.start
  | .classBody => ClosedBy source parts span.stop
  | .classNode _ _ => EndsInBody parts
  | .this => parts = []
  | .jsxText => parts = [] ∧ Plain source span.start span.stop
  | .jsxEmpty => parts = []
  | .method _ _ _ => EndsInFunction parts
  | .jsxElement => StartsWithTag parts
  | .jsxFragment => Content parts
  | .jsxAttribute _ => parts = [] ∨ ∃ value, parts = [value] ∧ IsAssigned value
  | .jsxContainer => ∃ value, parts = [value]
  | .assign _ => Flush parts
  | .arguments => Flush parts
  | shape => shape.Groups parts

mutual
/-- A tree is laid out on a text. -/
def Node.Laid (source : List Char) : Node → Prop
  | .mk shape span parts =>
    Boundary source span.start ∧ Boundary source span.stop ∧ span.start ≤ span.stop ∧
      (shape.mayBeEmpty = false → span.start < span.stop) ∧ shape.Requires source span parts ∧
      Row source parts (Node.mk shape span parts).outset span.stop

/-- Trees are laid out one behind the other between two offsets. -/
def Row (source : List Char) : List Node → ℕ → ℕ → Prop
  | [], _, _ => True
  | node :: rest, lo, hi =>
    lo ≤ node.outset ∧ node.span.stop ≤ hi ∧ node.Laid source ∧ Row source rest node.span.stop hi
end

/-- Where the last of some trees ends; `lo` if there are none. -/
def stopOf (lo : ℕ) : List Node → ℕ
  | [] => lo
  | node :: rest => stopOf node.span.stop rest

variable {source : List Char} {nodes more : List Node} {node : Node} {lo hi lo' hi' : ℕ}

/-! ### Rows -/

@[grind =]
theorem span_mk (shape : Shape) (span : Span) (parts : List Node) : (Node.mk shape span parts).span = span := rfl

@[grind =]
theorem row_nil : Row source [] lo hi ↔ True := by rw [Row]

@[grind =]
theorem row_cons : Row source (node :: nodes) lo hi ↔ lo ≤ node.outset ∧ node.span.stop ≤ hi ∧
    node.Laid source ∧ Row source nodes node.span.stop hi := by rw [Row]

theorem row_append :
    Row source (nodes ++ more) lo hi ↔ Row source nodes lo hi ∧ Row source more (stopOf lo nodes) hi := by
  induction nodes generalizing lo with
  | nil => simp [row_nil, stopOf]
  | cons node nodes ih => simp [row_cons, stopOf, ih, and_assoc]

theorem Row.mono (h : Row source nodes lo hi) (hlo : lo' ≤ lo) (hh : hi ≤ hi') : Row source nodes lo' hi' := by
  induction nodes generalizing lo lo' with
  | nil => exact row_nil.mpr trivial
  | cons node nodes ih =>
    obtain ⟨hst, hs, hl, hr⟩ := row_cons.mp h
    exact row_cons.mpr ⟨by omega, by omega, hl, ih hr (Nat.le_refl _)⟩

theorem stopOf_le {bound : ℕ} (h : Row source nodes lo hi) (hh : hi ≤ bound) (hl : lo' ≤ bound) :
    stopOf lo' nodes ≤ bound := by
  induction nodes generalizing lo lo' with
  | nil => exact hl
  | cons node nodes ih =>
    obtain ⟨-, hs, -, hr⟩ := row_cons.mp h
    exact ih hr (by omega)

grind_pattern row_append => Row source (nodes ++ more) lo hi where
  nodes =/= []
  nodes =/= _ :: _
grind_pattern Row.mono => Row source nodes lo hi, Row source nodes lo' hi' where
  nodes =/= []
  nodes =/= _ :: _
  guard lo' ≤ lo
  guard hi ≤ hi'
grind_pattern stopOf_le => Row source nodes lo hi, stopOf lo' nodes ≤ bound where
  guard hi ≤ bound
  guard lo' ≤ bound

/-! ### Outsets -/

@[grind =]
theorem outset_mk_of_not_mayHoist (h : shape.mayHoist = false) : (Node.mk shape span parts).outset = span.start := by
  cases parts with
  | nil => rw [Node.outset]
  | cons first rest => rw [Node.outset, h]; rfl

theorem outset_le (node : Node) : node.outset ≤ node.span.start := by
  rcases node with ⟨shape, span, _ | ⟨first, rest⟩⟩
  · exact Nat.le_refl _
  · rw [Node.outset]
    split
    · exact Nat.min_le_left _ _
    · exact Nat.le_refl _

/-- A node starts behind an offset if its span and its parts do. -/
theorem le_outset (h : Row source nodes lo hi) (hs : lo ≤ span.start) : lo ≤ (Node.mk shape span nodes).outset := by
  cases nodes with
  | nil => exact hs
  | cons first rest =>
    have hf := (row_cons.mp h).1
    rw [Node.outset]
    split
    · exact Nat.le_min.mpr ⟨hs, hf⟩
    · exact hs

/-- The parts of a class or an export lie behind its outset. -/
theorem Row.from_outset (hsh : shape.mayHoist) (h : Row source nodes lo hi) :
    Row source nodes (Node.mk shape span nodes).outset hi := by
  cases nodes with
  | nil => exact row_nil.mpr trivial
  | cons first rest =>
    obtain ⟨-, hs, hl, hr⟩ := row_cons.mp h
    rw [Node.outset, if_pos hsh]
    exact row_cons.mpr ⟨Nat.min_le_right _ _, hs, hl, hr⟩

grind_pattern le_outset => Row source nodes lo hi, (Node.mk shape span nodes).outset where
  guard lo ≤ span.start

/-! ### Laid trees -/

theorem laid_mk : (Node.mk shape span parts).Laid source ↔
    Boundary source span.start ∧ Boundary source span.stop ∧ span.start ≤ span.stop ∧
      (shape.mayBeEmpty = false → span.start < span.stop) ∧ shape.Requires source span parts ∧
      Row source parts (Node.mk shape span parts).outset span.stop := by
  rw [Node.Laid]

theorem laid_mk_of_not_mayBeEmpty (h : shape.mayBeEmpty = false) : (Node.mk shape span parts).Laid source ↔
      Boundary source span.start ∧ Boundary source span.stop ∧ span.start < span.stop ∧
        shape.Requires source span parts ∧ Row source parts (Node.mk shape span parts).outset span.stop := by
  rw [laid_mk, h]
  constructor
  · rintro ⟨hst, hs, -, hl, hm⟩
    exact ⟨hst, hs, hl rfl, hm⟩
  · rintro ⟨hst, hs, hl, hm⟩
    exact ⟨hst, hs, Nat.le_of_lt hl, fun _ => hl, hm⟩

theorem requires_of_isPlain (h : shape.isPlain) : shape.Requires source span parts := by
  cases shape
  case arrow isAsync isExpression =>
    cases isExpression
    · trivial
    · cases h
  all_goals trivial

theorem laid_mk_of_not_mayHoist (he : shape.mayBeEmpty = false) (hh : shape.mayHoist = false) :
    (Node.mk shape span parts).Laid source ↔ Boundary source span.start ∧ Boundary source span.stop ∧
      span.start < span.stop ∧ shape.Requires source span parts ∧ Row source parts span.start span.stop := by
  rw [laid_mk_of_not_mayBeEmpty he, outset_mk_of_not_mayHoist hh]

@[grind =]
theorem laid_mk_of_isPlain (h : shape.isPlain) :
    (Node.mk shape span parts).Laid source ↔ Boundary source span.start ∧ Boundary source span.stop ∧
      span.start < span.stop ∧ Row source parts span.start span.stop := by
  have hr : shape.Requires source span parts := requires_of_isPlain h
  simp only [Shape.isPlain, Bool.and_eq_true, Bool.not_eq_true'] at h
  rw [laid_mk_of_not_mayHoist h.1.1 h.1.2]
  simp only [hr, true_and]

/-- The text of a class or an export may start before its span. -/
theorem laid_mk_of_mayHoist (h : shape.mayHoist) :
    (Node.mk shape span parts).Laid source ↔ Boundary source span.start ∧ Boundary source span.stop ∧
      span.start < span.stop ∧ shape.Requires source span parts ∧
      Row source parts (Node.mk shape span parts).outset span.stop := by
  have he : shape.mayBeEmpty = false := by cases shape <;> first | rfl | cases h
  exact laid_mk_of_not_mayBeEmpty he

@[grind =]
theorem laid_mk_of_isFramed (h : shape.isFramed) :
    (Node.mk shape span parts).Laid source ↔ Boundary source span.start ∧ Boundary source span.stop ∧
      span.start < span.stop ∧ shape.Requires source span parts ∧ Row source parts span.start span.stop := by
  refine laid_mk_of_not_mayHoist ?_ ?_
  · cases shape <;> first | rfl | cases h
  · cases shape <;> first | rfl | cases h

@[grind =]
theorem requires_of_isGrouped (h : shape.isGrouped) :
    shape.Requires source span parts ↔ shape.Groups parts := by
  unfold Shape.isGrouped at h
  split at h <;> first | rfl | cases h

@[grind →]
theorem Node.Laid.boundaries (h : node.Laid source) : Boundary source node.span.start ∧
    Boundary source node.span.stop ∧ node.outset ≤ node.span.start ∧ node.span.start ≤ node.span.stop := by
  have ho := outset_le node
  cases node
  obtain ⟨hst, hs, hl, -⟩ := laid_mk.mp h
  exact ⟨hst, hs, ho, hl⟩

theorem Node.Laid.row_parts (h : node.Laid source) : Row source node.parts node.outset node.span.stop := by
  cases node
  exact (laid_mk.mp h).2.2.2.2.2

/-! ### Ends of rows -/

theorem le_stopOf (h : Row source nodes lo hi) : lo ≤ stopOf lo nodes := by
  induction nodes generalizing lo with
  | nil => exact Nat.le_refl lo
  | cons node nodes ih =>
    obtain ⟨hst, -, hl, hr⟩ := row_cons.mp h
    have hs := hl.boundaries
    have hso := ih hr
    rw [stopOf]
    omega

theorem Row.up_to_stopOf (h : Row source nodes lo hi) : Row source nodes lo (stopOf lo nodes) := by
  induction nodes generalizing lo with
  | nil => exact row_nil.mpr trivial
  | cons node nodes ih =>
    obtain ⟨hs, -, hl, hr⟩ := row_cons.mp h
    exact row_cons.mpr ⟨hs, le_stopOf hr, hl, ih hr⟩

theorem Row.cut {last : Node} (h : Row source (nodes ++ last :: more) lo hi) :
    Row source (nodes ++ [last]) lo last.span.stop ∧ last.Laid source ∧ lo ≤ last.span.start ∧
      last.span.stop ≤ hi ∧ Row source more last.span.stop hi := by
  obtain ⟨hn, hla⟩ := row_append.mp h
  obtain ⟨hst, hs, hl, hm⟩ := row_cons.mp hla
  have hsp := hl.boundaries
  have hlo := le_stopOf hn
  refine ⟨?_, hl, by omega, hs, hm⟩
  refine row_append.mpr ⟨hn.up_to_stopOf.mono (Nat.le_refl _) (by omega), ?_⟩
  exact row_cons.mpr ⟨hst, Nat.le_refl _, hl, row_nil.mpr trivial⟩

theorem Row.stop_le (h : Row source nodes lo hi) (hm : node ∈ nodes) : node.span.stop ≤ hi := by
  induction nodes generalizing lo with
  | nil => cases hm
  | cons first rest ih =>
    obtain ⟨-, hs, -, hr⟩ := row_cons.mp h
    rcases mem_cons.mp hm with rfl | hm
    · exact hs
    · exact ih hr hm

theorem Row.laid_of_mem (h : Row source nodes lo hi) (hm : node ∈ nodes) : node.Laid source := by
  induction nodes generalizing lo with
  | nil => cases hm
  | cons first rest ih =>
    obtain ⟨-, -, hl, hr⟩ := row_cons.mp h
    rcases mem_cons.mp hm with rfl | hm
    · exact hl
    · exact ih hr hm

theorem Row.le_outset_of_mem (h : Row source nodes lo hi) (hm : node ∈ nodes) : lo ≤ node.outset := by
  induction nodes generalizing lo with
  | nil => cases hm
  | cons first rest ih =>
    obtain ⟨hs, -, hl, hr⟩ := row_cons.mp h
    have hb := hl.boundaries
    rcases mem_cons.mp hm with rfl | hm
    · exact hs
    · have := ih hr hm
      omega

/-- A row lies wherever all its trees do. -/
theorem Row.within (h : Row source nodes lo hi)
    (hin : ∀ node ∈ nodes, lo' ≤ node.outset ∧ node.span.stop ≤ hi') : Row source nodes lo' hi' := by
  induction nodes generalizing lo lo' with
  | nil => exact row_nil.mpr trivial
  | cons first rest ih =>
    obtain ⟨-, -, hl, hr⟩ := row_cons.mp h
    have hf := hin first (.head _)
    refine row_cons.mpr ⟨hf.1, hf.2, hl, ih hr fun node hm => ⟨?_, ?_⟩⟩
    · exact hr.le_outset_of_mem hm
    · exact (hin node (.tail _ hm)).2

theorem Row.sublist (h : Row source nodes lo hi) (hsu : more.Sublist nodes) : Row source more lo hi := by
  induction hsu generalizing lo with
  | slnil => exact h
  | cons node _ ih =>
    obtain ⟨hst, -, hl, hr⟩ := row_cons.mp h
    have hb := hl.boundaries
    exact (ih hr).mono (by omega) (Nat.le_refl _)
  | cons_cons node _ ih =>
    obtain ⟨hst, hs, hl, hr⟩ := row_cons.mp h
    exact row_cons.mpr ⟨hst, hs, hl, ih hr⟩

/-- Trees that lie in the trees of a row are a row. -/
theorem Row.flatMap {inner : Node → List Node} (h : Row source nodes lo hi) (hle : lo ≤ hi)
    (hin : ∀ node ∈ nodes, Row source (inner node) node.outset node.span.stop) :
    Row source (nodes.flatMap inner) lo hi := by
  induction nodes generalizing lo with
  | nil => exact row_nil.mpr trivial
  | cons node rest ih =>
    obtain ⟨hst, hs, hl, hr⟩ := row_cons.mp h
    have hb := hl.boundaries
    have hf := hin node (.head _)
    have ho := ih hr hs fun other hm => hin other (.tail _ hm)
    rw [flatMap_cons]
    refine row_append.mpr ⟨hf.mono hst hs, ho.mono ?_ (Nat.le_refl _)⟩
    exact stopOf_le hf (Nat.le_refl _) (by omega)

theorem Row.closedBy {brace stop : ℕ} (h : Row source nodes lo hi) (hb : AtBrace source brace)
    (hl : hi ≤ brace) (hs : brace + 1 = stop) : ClosedBy source nodes stop :=
  ⟨brace, hs, hb, fun _ hm => Nat.le_trans (h.stop_le hm) hl⟩

grind_pattern Row.closedBy => Row source nodes lo hi, AtBrace source brace, ClosedBy source nodes stop

/-! ### Flush trees -/

@[grind =]
theorem flush_nil : Flush [] ↔ True := by simp [Flush]

@[grind =]
theorem flush_cons : Flush (node :: nodes) ↔ node.outset = node.span.start ∧ Flush nodes := by
  simp [Flush]

/-! ### Decorators -/

@[grind =]
theorem decorators_nil : Decorators [] ↔ True := by simp [Decorators]

@[grind =]
theorem decorators_append : Decorators (nodes ++ more) ↔ Decorators nodes ∧ Decorators more := by
  simp [Decorators, or_imp, forall_and]

/-! ### Framed nodes -/

theorem endsInFunction_append {key function : Node} (hm : Decorators nodes) (hk : key.shape ≠ .decorator)
    (hf : function.shape ≠ .decorator) : EndsInFunction (nodes ++ [key, function]) :=
  ⟨nodes, key, function, rfl, hm, hk, hf⟩

grind_pattern endsInFunction_append => EndsInFunction (nodes ++ [key, function])

@[grind →]
theorem Shape.isContent_of_isMarkup (h : shape.isMarkup) : shape.isContent := by
  cases shape <;> first | rfl | cases h

@[grind =]
theorem content_nil : Content [] ↔ True := by simp [Content]

@[grind =]
theorem content_append : Content (nodes ++ more) ↔ Content nodes ∧ Content more := by
  simp [Content, or_imp, forall_and]

@[grind =]
theorem content_singleton : Content [node] ↔ node.shape.isContent = true := by simp [Content]

@[grind .]
theorem startsWithTag_cons {selfClosing : Bool} {name : Node} {items rest : List Node}
    (hn : name.shape.isTagName) (hit : TagItems items) (hr : Content rest)
    (hc : selfClosing → rest = []) :
    StartsWithTag (.mk (.jsxOpening selfClosing) span (name :: items) :: rest) :=
  ⟨selfClosing, span, name, items, rest, rfl, hn, hit, hr, hc⟩

/-! ### Plain shapes -/

attribute [grind unfold] Shape.mayHoist Shape.isGrouped Shape.isFramed
attribute [grind =] Shape.Requires

theorem Shape.mayHoist_of_isExport (shape : Shape) (h : shape.isExport) : shape.mayHoist := by
  cases shape <;> first | rfl | cases h

@[grind →]
theorem Shape.mayHoist_of_isPlain (h : shape.isPlain) : shape.mayHoist = false := by
  simp only [Shape.isPlain, Bool.and_eq_true, Bool.not_eq_true'] at h
  exact h.1.2

@[grind =]
theorem isPlain_of_ne (he : shape ≠ .jsxEmpty) (hp : shape ≠ .program) (hh : shape.mayHoist = false)
    (hf : shape.isFramed = false) : shape.isPlain := by
  cases shape <;> simp_all [Shape.isPlain, Shape.mayBeEmpty]

end Polyview.Script
