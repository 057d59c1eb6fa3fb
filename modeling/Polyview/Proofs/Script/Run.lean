import Mathlib.Data.List.Basic
import Polyview.Script.Reader

/-! # Runs of rules

`Runs rule context c a c'` says that a rule reads from the cursor `c` to the cursor `c'` and returns `a`. The
equations below take a run apart, from the sequence of steps down to the cursors: `grind` and `simp` turn a
run of a rule into what its steps found and where they stood. -/

namespace Polyview.Script

variable {keyword : Keyword} {sign : Punct}

/-- A rule reads from one cursor to another, and returns a value. -/
def Runs {α : Type} (rule : Parse α) (context : Context) (c : Cursor) (a : α) (c' : Cursor) : Prop :=
  rule context c = .ok (a, c')

variable {α β : Type} {context : Context} {c c' : Cursor} {a : α} {b : β} {yes : Bool} {u : Unit}

theorem Runs.unique {rule : Parse α} {a' : α} {c'' : Cursor} (h : Runs rule context c a c')
    (h' : Runs rule context c a' c'') : a = a' ∧ c' = c'' := by
  have heq := Except.ok.inj (h.symm.trans h')
  exact ⟨congrArg Prod.fst heq, congrArg Prod.snd heq⟩

/-! ### Sequences -/

@[simp, grind norm]
theorem runs_pure {x : α} : Runs (pure x) context c a c' ↔ c' = c ∧ a = x := by
  constructor
  · rintro ⟨⟩
    exact ⟨rfl, rfl⟩
  · rintro ⟨rfl, rfl⟩
    rfl

@[simp, grind norm]
theorem runs_bind {x : Parse α} {k : α → Parse β} :
    Runs (x >>= k) context c b c' ↔ ∃ a c'', Runs x context c a c'' ∧ Runs (k a) context c'' b c' := by
  simp only [Runs, bind, ReaderT.bind, StateT.bind, Except.bind]
  constructor
  · intro h
    split at h
    · cases h
    · next r hr => exact ⟨r.1, r.2, hr, h⟩
  · rintro ⟨a, c'', h, h'⟩
    rw [h]
    exact h'

@[simp, grind norm]
theorem runs_map {x : Parse α} {f : α → β} : Runs (f <$> x) context c b c' ↔ ∃ a, Runs x context c a c' ∧ b = f a := by
  rw [← bind_pure_comp, runs_bind]
  simp only [runs_pure]
  constructor
  · rintro ⟨a, c'', h, rfl, hb⟩
    exact ⟨a, h, hb⟩
  · rintro ⟨a, h, hb⟩
    exact ⟨a, c', h, rfl, hb⟩

@[simp, grind norm]
theorem runs_ite {p : Prop} [Decidable p] {x y : Parse α} : Runs (if p then x else y) context c a c' ↔
    if p then Runs x context c a c' else Runs y context c a c' := by
  by_cases h : p <;> simp [h]

@[simp, grind norm]
theorem runs_throw {why : Reject} : Runs (throw why) context c a c' ↔ False := iff_false_intro fun h => by cases h

@[simp, grind norm]
theorem runs_reject : Runs reject context c a c' ↔ False := runs_throw

@[simp, grind norm]
theorem runs_read {found : Context} : Runs read context c found c' ↔ c' = c ∧ found = context := by
  constructor
  · rintro ⟨⟩
    exact ⟨rfl, rfl⟩
  · rintro ⟨rfl, rfl⟩
    rfl

@[simp, grind norm]
theorem runs_withReader {change : Context → Context} {rule : Parse α} :
    Runs (withReader change rule) context c a c' ↔ Runs rule (change context) c a c' :=
  Iff.rfl

@[simp, grind norm]
theorem runs_inBrackets {rule : Parse α} : Runs (inBrackets rule) context c a c' ↔
    Runs rule { context with allowIn := true, inDecorator := false, noConditionalType := false } c a c' :=
  Iff.rfl

@[simp, grind norm]
theorem runs_get {found : Cursor} : Runs get context c found c' ↔ c' = c ∧ found = c := by
  constructor
  · rintro ⟨⟩
    exact ⟨rfl, rfl⟩
  · rintro ⟨rfl, rfl⟩
    rfl

@[simp, grind norm]
theorem runs_modify {move : Cursor → Cursor} : Runs (modify move) context c u c' ↔ c' = move c := by
  constructor
  · rintro ⟨⟩
    rfl
  · rintro rfl
    rfl

/-! ### Looking -/

/-- What a step returns that only looks at the cursor. -/
theorem runs_look {look : Cursor → α} : Runs (do return look (← get)) context c a c' ↔ c' = c ∧ a = look c := by
  simp [runs_get]

@[simp, grind norm]
theorem runs_token {t : Token} : Runs token context c t c' ↔ c' = c ∧ t = c.token := runs_look

@[simp, grind norm]
theorem runs_tokenKind {kind : TokenKind} : Runs tokenKind context c kind c' ↔ c' = c ∧ kind = c.token.kind := runs_look

@[simp, grind norm]
theorem runs_startOffset {n : ℕ} : Runs startOffset context c n c' ↔ c' = c ∧ n = c.token.span.start := runs_look

@[simp, grind norm]
theorem runs_prevStop {n : ℕ} : Runs prevStop context c n c' ↔ c' = c ∧ n = c.prevStop := runs_look

@[simp, grind norm]
theorem runs_onNewLine : Runs onNewLine context c yes c' ↔ c' = c ∧ yes = c.token.newline := runs_look

@[simp, grind norm]
theorem runs_sees : Runs (sees sign) context c yes c' ↔ c' = c ∧ (yes ↔ c.token.kind = .punct sign) := by
  rw [← beq_iff_eq (a := c.token.kind), ← Bool.eq_iff_iff]
  simp [sees]

def TokenKind.keyword? : TokenKind → Option Keyword
  | .word _ keyword => keyword
  | _ => none

@[simp, grind norm]
theorem runs_keyword? {keyword : Option Keyword} :
    Runs keyword? context c keyword c' ↔ c' = c ∧ keyword = c.token.kind.keyword? := by
  simp only [Script.keyword?, runs_bind, runs_tokenKind]
  constructor
  · rintro ⟨kind, c'', ⟨rfl, rfl⟩, h⟩
    split at h <;> simp_all [TokenKind.keyword?]
  · rintro ⟨rfl, rfl⟩
    refine ⟨_, _, ⟨rfl, rfl⟩, ?_⟩
    split <;> simp_all [TokenKind.keyword?]

@[simp, grind norm]
theorem runs_seesWord : Runs (seesWord keyword) context c yes c' ↔
    c' = c ∧ (yes ↔ c.token.kind.keyword? = some keyword) := by
  rw [← beq_iff_eq (a := c.token.kind.keyword?), ← Bool.eq_iff_iff]
  simp [seesWord]

@[simp, grind norm]
theorem runs_seesIdentifier : Runs seesIdentifier context c yes c' ↔ c' = c ∧ yes = c.token.kind.isIdentifier := by
  simp [seesIdentifier]

def TokenKind.isWord : TokenKind → Bool
  | .word .. => true
  | .escapedWord _ => true
  | _ => false

@[simp, grind norm]
theorem runs_seesAnyWord : Runs seesAnyWord context c yes c' ↔ c' = c ∧ yes = c.token.kind.isWord := by
  simp only [seesAnyWord, runs_bind, runs_tokenKind]
  constructor
  · rintro ⟨kind, c'', ⟨rfl, rfl⟩, h⟩
    split at h <;> simp_all [TokenKind.isWord]
  · rintro ⟨rfl, rfl⟩
    refine ⟨_, _, ⟨rfl, rfl⟩, ?_⟩
    split <;> simp_all [TokenKind.isWord]

/-! What only looks at the cursor is known at once. -/

theorem runs_startOffset_bind {k : ℕ → Parse β} :
    Runs (startOffset >>= k) context c b c' ↔ Runs (k c.token.span.start) context c b c' := by simp

theorem runs_tokenKind_bind {k : TokenKind → Parse β} :
    Runs (tokenKind >>= k) context c b c' ↔ Runs (k c.token.kind) context c b c' := by simp

theorem runs_keyword?_bind {k : Option Keyword → Parse β} :
    Runs (keyword? >>= k) context c b c' ↔ Runs (k c.token.kind.keyword?) context c b c' := by simp

theorem runs_token_bind {k : Token → Parse β} :
    Runs (token >>= k) context c b c' ↔ Runs (k c.token) context c b c' := by simp

theorem runs_read_bind {k : Context → Parse β} :
    Runs (read >>= k) context c b c' ↔ Runs (k context) context c b c' := by simp

/-! ### Moving on -/

/-- A cursor that notes a flaw on a condition. -/
def Cursor.flag (c : Cursor) (bad : Bool) : Cursor := { c with flawed := c.flawed || bad }

@[simp, grind norm]
theorem runs_next : Runs next context c u c' ↔ c' = c.next := by simp [next]

theorem runs_next_bind {k : Unit → Parse β} : Runs (next >>= k) context c b c' ↔ Runs (k ()) context c.next b c' := by
  rw [runs_bind]
  constructor
  · rintro ⟨⟨⟩, _, hn, h⟩
    exact runs_next.mp hn ▸ h
  · exact fun h => ⟨(), c.next, runs_next.mpr rfl, h⟩

@[simp, grind norm]
theorem runs_flaw : Runs flaw context c u c' ↔ c' = c.flag true := by simp [flaw, Cursor.flag]

@[simp, grind norm]
theorem runs_flawIf {bad : Bool} : Runs (flawIf bad) context c u c' ↔ c' = c.flag bad := by
  cases bad <;> simp [flawIf, Cursor.flag]

@[simp, grind norm]
theorem runs_expect : Runs (expect sign) context c u c' ↔ c.token.kind = .punct sign ∧ c' = c.next := by
  by_cases h : c.token.kind = .punct sign <;> simp [expect, h]

@[simp, grind norm]
theorem runs_expectWord : Runs (expectWord keyword) context c u c' ↔
    c.token.kind.keyword? = some keyword ∧ c' = c.next := by
  by_cases h : c.token.kind.keyword? = some keyword <;> simp [expectWord, h]

@[simp, grind norm]
theorem runs_eat : Runs (eat sign) context c yes c' ↔
    if c.token.kind = .punct sign then c' = c.next ∧ yes = true else c' = c ∧ yes = false := by
  by_cases h : c.token.kind = .punct sign <;> simp [eat, h]

@[simp, grind norm]
theorem runs_eatWord : Runs (eatWord keyword) context c yes c' ↔
    if c.token.kind.keyword? = some keyword then c' = c.next ∧ yes = true else c' = c ∧ yes = false := by
  by_cases h : c.token.kind.keyword? = some keyword <;> simp [eatWord, h]

@[simp, grind norm]
theorem runs_finish {start : ℕ} {shape : Shape} {parts : List Node} {node : Node} :
    Runs (finish start shape parts) context c node c' ↔
      c' = c ∧ node = .mk shape ⟨start, c.prevStop⟩ parts := by simp [finish]

@[simp, grind norm]
theorem runs_leaf {shape : Shape} {node : Node} : Runs (leaf shape) context c node c' ↔
    c' = c.next ∧ node = .mk shape ⟨c.token.span.start, c.next.prevStop⟩ [] := by simp [leaf]

def Token.canEndStatement (t : Token) : Bool :=
  t.kind == .punct .semicolon || t.kind == .punct .rbrace || t.kind == .eof || t.newline

@[simp, grind norm]
theorem runs_canEndStatement : Runs canEndStatement context c yes c' ↔ c' = c ∧ yes = c.token.canEndStatement := by
  simp only [canEndStatement, runs_bind, runs_token]
  constructor
  · rintro ⟨t, c'', ⟨rfl, rfl⟩, h⟩
    split at h <;> simp_all [Token.canEndStatement]
  · rintro ⟨rfl, rfl⟩
    refine ⟨_, _, ⟨rfl, rfl⟩, ?_⟩
    split <;> simp_all [Token.canEndStatement]

@[simp, grind norm]
theorem runs_endStatement : Runs endStatement context c u c' ↔
    if c.token.kind = .punct .semicolon then c' = c.next else c.token.canEndStatement = true ∧ c' = c := by
  by_cases h : c.token.kind = .punct .semicolon
  · simp [endStatement, h]
  · by_cases h' : c.token.canEndStatement <;> simp [endStatement, h, h']

/-! ### Trying -/

def Rejects (rule : Parse α) (context : Context) (c : Cursor) : Prop := rule context c = .error .unexpected

@[simp]
theorem runs_attempt {rule : Parse α} {found : Option α} : Runs (attempt rule) context c found c' ↔
    (∃ a, found = some a ∧ Runs rule context c a c') ∨ found = none ∧ c' = c ∧ Rejects rule context c := by
  simp only [Runs, Rejects, attempt]
  split <;> simp_all <;> grind

@[simp]
theorem runs_ahead {test : Parse Bool} : Runs (ahead test) context c yes c' ↔
    c' = c ∧ ((∃ c'', Runs test context c yes c'') ∨ yes = false ∧ Rejects test context c) := by
  simp only [Runs, Rejects, ahead]
  split <;> simp_all <;> grind

@[simp]
theorem runs_nextIs {test : Token → Bool} :
    Runs (nextIs test) context c yes c' ↔ c' = c ∧ yes = test c.next.token := by
  have hr : ¬ Rejects (do next; test <$> token) context c := fun h => by cases h
  simp [nextIs, hr]

end Polyview.Script
