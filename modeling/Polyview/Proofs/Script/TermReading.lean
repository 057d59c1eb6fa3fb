import Polyview.Proofs.Script.Term

/-! # How terms are read

Wherever a rule reads at a valid term, it reads the whole term: no operator in front of it or behind it takes a part of
it, given that it binds as tight as the rule asks for. Operands and binary operators are read in loops, whose state
behind a term is that the tree of the term has been read. The proof is by induction on the term, at all depths of the
nesting of rules. -/

namespace Polyview.Script

open List Text Bool Node

variable {allowReturn : Bool} {c c' : Cursor} {context : Context} {g : Grammar} {level n start : ℕ} {name : String}
  {node object : Node} {rest tail : List Char} {sign : Punct} {t : Term} {target : Chained} {found : Option Chained}
  {shape : Shape} {left : Node}

/-! ### Accesses and calls -/

theorem wordKind_false (name : List Char) : ∃ keyword, wordKind name false = .word (String.ofList name) keyword := by
  unfold wordKind
  split
  · exact ⟨_, rfl⟩
  · exact ⟨_, rfl⟩

/-- An access to a member is read where one is written. -/
theorem accessStep_member (hn : isIdentifier name)
    (h : Runs (accessStep g start true target) context c found c') (hc : c.At ('.' :: (name.toList ++ rest)))
    (hr : EndsWord rest) (hi : Inked rest) :
    ∃ span, found = some { target with node := .mk (.member name false) span [target.node] } ∧ c'.Before rest := by
  obtain ⟨hk, hb⟩ := hc.dot hn
  have ha : c.next.At (name.toList ++ rest) := by
    obtain ⟨⟨first, more, hch, hf⟩, -⟩ := chars_of_isIdentifier hn
    obtain ⟨-, hf, -⟩ := char_of_isNameStart hf
    rw [hch] at hb ⊢
    exact (Cursor.before_next hb ⟨first, _, starts_of_isInk hf (.inl rfl)⟩).at_of_ink hf
  obtain ⟨hw, hb'⟩ := ha.word hn hr
  obtain ⟨keyword, hkw⟩ := wordKind_false name.toList
  rw [hkw, String.ofList_toList] at hw
  rw [accessStep, runs_read_bind, runs_token_bind] at h
  rcases ht : c.token with ⟨kind, span, newline⟩
  obtain rfl : kind = .punct .dot := by rw [← hk, ht]
  rw [ht] at h
  simp only [memberShape, runs_bind, runs_next, runs_flawIf, runs_tokenKind, runs_finish, runs_pure] at h
  obtain ⟨_, _, rfl, shape, c₁, ⟨_, _, rfl, _, _, ⟨rfl, rfl⟩, h⟩, _, _, ⟨rfl, rfl⟩, rfl, rfl⟩ := h
  rw [Cursor.token_flag, hw] at h
  simp only [runs_bind, runs_next, runs_pure] at h
  obtain ⟨_, _, rfl, rfl, rfl⟩ := h
  exact ⟨_, rfl, Cursor.before_next hb' hi⟩

/-- An access by an index is read where one is written, but not in a decorator. -/
theorem accessStep_index (h : Runs (accessStep g start true target) context c found c')
    (hk : c.token.kind = .punct .lbracket) (hd : context.inDecorator = false) :
    ∃ span index c₁, Runs (inBrackets g.expression) context c.next index c₁ ∧ c' = c₁.next ∧
      found = some { target with node := .mk (.index false) span [target.node, index] } := by
  rw [accessStep, runs_read_bind, runs_token_bind] at h
  rcases ht : c.token with ⟨kind, span, newline⟩
  obtain rfl : kind = .punct .lbracket := by rw [← hk, ht]
  rw [ht] at h
  simp only [hd, false_eq_true, if_false, runs_bind, runs_next, runs_expect, runs_finish, runs_pure] at h
  obtain ⟨_, _, rfl, index, c₁, hi, _, _, ⟨-, rfl⟩, _, _, ⟨rfl, rfl⟩, rfl, rfl⟩ := h
  exact ⟨_, index, c₁, hi, rfl, rfl⟩

theorem accessStep_call (h : Runs (accessStep g start true target) context c found c')
    (hk : c.token.kind = .punct .lparen) : ∃ span arguments, Runs (callArguments g) context c arguments c' ∧ found =
      some { target with node := .mk (.call false) span (withTypeArguments target.node ++ [arguments]) } := by
  rw [accessStep, runs_read_bind, runs_token_bind] at h
  rcases ht : c.token with ⟨kind, span, newline⟩
  obtain rfl : kind = .punct .lparen := by rw [← hk, ht]
  rw [ht] at h
  simp only [if_true, runs_bind, runs_finish, runs_pure] at h
  obtain ⟨arguments, _, ha, _, _, ⟨rfl, rfl⟩, rfl, rfl⟩ := h
  exact ⟨_, arguments, ha, rfl⟩

theorem accessStep_none (h : Runs (accessStep g start true target) context c found c')
    (hk : c.token.kind = .punct sign) (hsi : sign.endsOperand ∨ sign = .plusPlus ∨ sign = .minusMinus) :
    found = none ∧ c' = c := by
  have hn (other : Punct) (ho : other.endsOperand = false) (ho' : other ≠ .plusPlus ∧ other ≠ .minusMinus) :
      c.token.kind ≠ .punct other := by
    rw [hk]
    rintro ⟨⟩
    rcases hsi with hs | rfl | rfl
    · cases hs.symm.trans ho
    · exact ho'.1 rfl
    · exact ho'.2 rfl
  rw [accessStep, runs_read_bind, runs_token_bind] at h
  split at h
  case h_1 ht | h_2 ht | h_3 ht | h_4 ht | h_6 ht =>
    exact absurd (congrArg Token.kind ht) (hn _ rfl (by decide))
  case h_5 ht =>
    rw [ht] at hk
    cases hk
  case h_7 =>
    simp only [expressionTypeArguments?, seesLess, runs_bind, runs_sees, runs_pure, runs_ite] at h
    obtain ⟨types, c₁, ⟨isLess, c₂, ⟨less, c₃, ⟨rfl, hl⟩, shift, c₄, ⟨rfl, hsh⟩, rfl, rfl⟩, hty⟩, h⟩ := h
    have hf : (less || shift) = false := by
      rw [or_eq_false_iff, eq_false_iff, eq_false_iff]
      exact ⟨fun hy => hn _ rfl (by decide) (hl.mp hy), fun hy => hn _ rfl (by decide) (hsh.mp hy)⟩
    rw [hf] at hty
    obtain ⟨rfl, rfl⟩ := hty
    obtain ⟨rfl, rfl⟩ := runs_pure.mp h
    exact ⟨rfl, rfl⟩

/-- An operand has been read; the rule goes on with accesses and calls behind it. -/
inductive AccessLoop (g : Grammar) (context : Context) (rest : List Char) (object node : Node) (c' : Cursor) : Prop
  | mk (n start : ℕ) (target found : Chained) (c₁ c₂ : Cursor)
      (loop : Runs (extendWith (accessStep g start true) n target) context c₁ found c₂) (before : c₁.Before rest)
      (alike : target.node.alike object = true) (plain : target.optional = false)
      (close : Runs (if found.optional then finish start .chain [found.node] else pure found.node) context c₂ node c')

section

variable (h : AccessLoop g context rest object node c')

include h

theorem AccessLoop.step : ∃ start target found c₁ c₂, Runs (accessStep g start true target) context c₁ found c₂ ∧
    c₁.Before rest ∧ target.node.alike object ∧ (found = none → node.alike object ∧ c' = c₂) ∧
    ∀ ⦃further rest' object'⦄, found = some { target with node := further } → c₂.Before rest' →
      further.alike object' = true → AccessLoop g context rest' object' node c' := by
  obtain ⟨n, start, target, found, c₁, c₂, hl, hb, ha, hp, hc⟩ := h
  cases n with
  | zero => cases hl
  | succ n =>
    rw [extendWith, runs_bind] at hl
    obtain ⟨step, c₃, hs, hl⟩ := hl
    refine ⟨start, target, step, c₁, c₃, hs, hb, ha, ?_, ?_⟩
    · rintro rfl
      obtain ⟨rfl, rfl⟩ := runs_pure.mp hl
      rw [hp, if_neg Bool.false_ne_true] at hc
      obtain ⟨rfl, rfl⟩ := runs_pure.mp hc
      exact ⟨ha, rfl⟩
    · rintro further rest' object' rfl hb' ha'
      exact ⟨n, start, _, found, c₃, c₂, hl, hb', ha', hp, hc⟩

theorem AccessLoop.stops (hs : Stops rest sign) (hsi : sign.endsOperand ∨ sign = .plusPlus ∨ sign = .minusMinus) :
    node.alike object ∧ c'.Before rest := by
  obtain ⟨start, target, found, c₁, c₂, hst, hb, -, he, -⟩ := h.step
  obtain ⟨rfl, rfl⟩ := accessStep_none hst (hb.kind_of_stops hs) hsi
  obtain ⟨ha, rfl⟩ := he rfl
  exact ⟨ha, hb⟩

end

/-! ### Operands -/

theorem alike_mk {span span' : Span} {parts parts' : List Node} :
    (Node.mk shape span parts).alike (.mk shape span' parts') = alikeAll parts parts' := by
  rw [Node.alike, beq_self_eq_true, Bool.true_and]

theorem alikeAll_one {first first' : Node} (h : first.alike first') : alikeAll [first] [first'] := by
  rw [alikeAll, h]
  rfl

theorem alikeAll_two {first first' second second' : Node} (h : first.alike first')
    (h' : second.alike second') : alikeAll [first, second] [first', second'] := by
  rw [alikeAll, h, alikeAll_one h']
  rfl

theorem shape_tree (h : 1 ≤ t.tightness) : t.tree.shape = t.shape := by
  cases t with
  | sequence => cases h
  | _ => rfl

theorem Term.trees_eq (h : 1 ≤ t.tightness) : t.trees = [t.tree] := by
  cases t with
  | sequence => cases h
  | _ => rfl

theorem withTypeArguments_of_alike (h : node.alike t.tree) (ht : 1 ≤ t.tightness) :
    withTypeArguments node = [node] := by
  have hs : node.shape ≠ .instantiation := by
    rw [shape_of_alike h, shape_tree ht]
    cases t <;> simp [Term.shape] <;> split <;> rintro ⟨⟩
  unfold withTypeArguments
  split
  · exact absurd rfl hs
  · rfl

/-- A term may be read in a context: what a decorator names ends in front of a bracket. -/
def Term.FitsIn (t : Term) (context : Context) : Prop := context.inDecorator = true → t.indexed = false

/-- The term is read first where an operand starts with it. -/
def Term.ReadAsOperand (t : Term) : Prop :=
  ∀ ⦃n context c node c' rest⦄, t.FitsIn context → EndsWord rest → Inked rest →
    Runs (leftHandSide (.level n)) context c node c' → c.At (t.text ++ rest) →
    AccessLoop (.level n) context rest t.tree node c'

/-- The term is read as a whole up to a closing bracket. -/
def Term.ReadInBrackets (t : Term) : Prop :=
  ∀ ⦃n context c node c' tail sign⦄, Stops tail sign → sign ∈ [.rparen, .rbracket] →
    Runs (inBrackets (Grammar.level n).expression) context c node c' → c.At (t.text ++ tail) →
    node.alike t.tree = true ∧ c'.Before tail

/-- One step of reading arguments. -/
def argumentStep (g : Grammar) : Parse Node := do
  let value ← spreadOrValue g
  if !(← sees .rparen) then expect .comma
  return value

/-- The arguments of a call are read up to the closing parenthesis. -/
def Term.ReadAsArguments (t : Term) : Prop :=
  ∀ ⦃n context m c items found c' tail⦄, context.inDecorator = false → Stops tail .rparen →
    Runs (readUntil (sees .rparen) (argumentStep (.level n)) m items) context c found c' → c.At (t.text ++ tail) →
    ∃ nodes, found = items.reverse ++ nodes ∧ alikeAll nodes t.trees = true ∧ c'.Before tail

theorem leftHandSide_primary (h : Runs (leftHandSide g) context c node c') :
    ∃ head c₁, Runs (primary g) context c head c₁ ∧
      ∀ ⦃rest object⦄, c₁.Before rest → head.alike object → AccessLoop g context rest object node c' := by
  rw [leftHandSide, runs_startOffset_bind] at h
  simp only [runs_bind, extend, runs_read] at h
  obtain ⟨head, c₁, hh, found, c₂, ⟨_, _, ⟨rfl, rfl⟩, hl⟩, h⟩ := h
  exact ⟨head, _, hh, fun rest object hb ha => ⟨_, _, _, found, _, c₂, hl, hb, ha, rfl, h⟩⟩

theorem Term.Valid.primary_word (hv : (Term.word name).Valid) (h : Runs (primary g) context c node c')
    (hc : c.At (name.toList ++ rest)) (hr : EndsWord rest) (hi : Inked rest) :
    node.alike (Term.word name).tree = true ∧ c'.Before rest := by
  obtain ⟨hk, hb⟩ := hc.word hv.1 hr
  rw [hv.wordKind_eq] at hk
  have hne := Cursor.before_next hb hi
  rw [primary, runs_startOffset_bind, runs_tokenKind_bind, hk] at h
  by_cases ht : name = "this"
  · subst ht
    obtain ⟨rfl, rfl⟩ := runs_leaf.mp h
    exact ⟨rfl, hne⟩
  · rw [if_neg ht] at h hk
    simp only [reference, identifier, runs_bind, runs_startOffset, runs_tokenKind, runs_finish] at h
    obtain ⟨_, _, ⟨rfl, rfl⟩, name, c₁, ⟨_, _, ⟨rfl, rfl⟩, hn⟩, rfl, rfl⟩ := h
    rw [hk] at hn
    simp only [Option.map_none, Option.getD_none, false_eq_true, if_false, runs_bind, runs_read, runs_flawIf,
      runs_next, runs_pure] at hn
    obtain ⟨_, _, ⟨rfl, rfl⟩, _, _, rfl, _, _, rfl, _, _, rfl, rfl, rfl⟩ := hn
    refine ⟨?_, Cursor.before_next hb hi⟩
    rw [Term.tree, Term.trees, Term.joined, Term.shape, if_neg ht]
    exact alike_mk

theorem callArguments_empty (h : Runs (callArguments g) context c node c') (hr : c.next.token.kind = .punct .rparen) :
    ∃ span, node = .mk .arguments span [] ∧ c' = c.next.next := by
  simp only [callArguments, commaList, manyUntil, runs_bind, runs_startOffset, runs_expect, runs_inBrackets, runs_finish,
    runs_read] at h
  obtain ⟨_, _, ⟨rfl, rfl⟩, _, _, ⟨-, rfl⟩, parts, c₁, ⟨_, _, ⟨rfl, rfl⟩, hp⟩, _, _, ⟨-, rfl⟩, rfl, rfl⟩ := h
  generalize Context.bound _ = n at hp
  cases n with
  | zero => cases hp
  | succ n =>
    rw [readUntil, runs_bind] at hp
    obtain ⟨isClose, _, hs, hp⟩ := hp
    obtain ⟨rfl, hc⟩ := runs_sees.mp hs
    rw [if_pos (hc.mpr hr)] at hp
    obtain ⟨rfl, rfl⟩ := runs_pure.mp hp
    exact ⟨_, rfl, rfl⟩

theorem Term.ReadAsArguments.callArguments (ht : t.ReadAsArguments) (hv : t.Valid)
    (h : Runs (callArguments (.level n)) context c node c') (hc : c.At ('(' :: (t.text ++ ')' :: rest))) :
    ∃ span parts, ∃ c₁ : Cursor, node = .mk .arguments span parts ∧ alikeAll parts t.trees ∧ c₁.Before (')' :: rest) ∧
      c' = c₁.next := by
  simp only [Script.callArguments, commaList, manyUntil, runs_bind, runs_startOffset, runs_expect, runs_inBrackets,
    runs_finish, runs_read] at h
  obtain ⟨_, _, ⟨rfl, rfl⟩, _, _, ⟨-, rfl⟩, parts, c₁, ⟨_, _, ⟨rfl, rfl⟩, hp⟩, _, _, ⟨-, rfl⟩, rfl, rfl⟩ := h
  obtain ⟨nodes, rfl, ha, hb⟩ := ht rfl stops_rparen hp (hv.opens.at_next hc.rest)
  exact ⟨_, _, _, rfl, ha, hb, rfl⟩

section

variable {o key : Term}

theorem Term.ReadAsOperand.member (ho : o.ReadAsOperand) (hn : isIdentifier name) :
    (Term.member o name).ReadAsOperand := by
  intro n context c node c' rest hf hw hi h hc
  rw [Term.text, append_assoc, cons_append] at hc
  obtain ⟨start, target, found, c₁, c₂, hs, hb, ha, -, hg⟩ := (ho hf (stops_dot hn).word (stops_dot hn).inked h hc).step
  obtain ⟨span, rfl, hb'⟩ := accessStep_member hn hs (hb.at_of_ink rfl) hw hi
  exact hg rfl hb' (alike_mk.trans (alikeAll_one ha))

theorem Term.ReadAsOperand.index (ho : o.ReadAsOperand) (hke : key.ReadInBrackets) (hv : key.Valid) :
    (Term.index o key).ReadAsOperand := by
  intro n context c node c' rest hf hw hi h hc
  rw [Term.text, append_assoc, cons_append, append_assoc] at hc
  have hd : context.inDecorator = false := eq_false_iff.mpr fun hy => by cases hf hy
  obtain ⟨start, target, found, c₁, c₂, hs, hb, ha, -, hg⟩ :=
    (ho (fun hy => by cases hd.symm.trans hy) stops_lbracket.word stops_lbracket.inked h hc).step
  obtain ⟨span, index, c₃, hin, rfl, rfl⟩ := accessStep_index hs (hb.kind_of_stops stops_lbracket) hd
  obtain ⟨hk, hb'⟩ := hke stops_rbracket (by decide) hin (hv.opens.at_next (hb.at_of_ink rfl).rest)
  exact hg rfl (Cursor.before_next (hb'.at_of_ink rfl).rest hi) (alike_mk.trans (alikeAll_two ha hk))

theorem Term.ReadAsOperand.invoke (ho : o.ReadAsOperand) (ht : 4 ≤ o.tightness) : (Term.invoke o).ReadAsOperand := by
  intro n context c node c' rest hf hw hi h hc
  rw [Term.text, append_assoc] at hc
  obtain ⟨start, target, found, c₁, c₂, hs, hb, ha, -, hg⟩ := (ho hf stops_lparen.word stops_lparen.inked h hc).step
  obtain ⟨span, arguments, har, rfl⟩ := accessStep_call hs (hb.kind_of_stops stops_lparen)
  have hr := (Cursor.before_next (hb.at_of_ink rfl).rest stops_rparen.inked)
  obtain ⟨span', rfl, rfl⟩ := callArguments_empty har (hr.kind_of_stops stops_rparen)
  rw [withTypeArguments_of_alike ha (by omega)] at hg
  exact hg rfl (Cursor.before_next (hr.at_of_ink rfl).rest hi) (alike_mk.trans (alikeAll_two ha alike_mk))

theorem Term.ReadAsOperand.call (ho : o.ReadAsOperand) (ht : 4 ≤ o.tightness) (har : key.ReadAsArguments)
    (hv : key.Valid) : (Term.call o key).ReadAsOperand := by
  intro n context c node c' rest hf hw hi h hc
  rw [Term.text, append_assoc, cons_append, append_assoc] at hc
  obtain ⟨start, target, found, c₁, c₂, hs, hb, ha, -, hg⟩ := (ho hf stops_lparen.word stops_lparen.inked h hc).step
  obtain ⟨span, arguments, hr, rfl⟩ := accessStep_call hs (hb.kind_of_stops stops_lparen)
  obtain ⟨span', parts, c₃, rfl, hp, hb', rfl⟩ := har.callArguments hv hr (hb.at_of_ink rfl)
  rw [withTypeArguments_of_alike ha (by omega)] at hg
  exact hg rfl (Cursor.before_next (hb'.at_of_ink rfl).rest hi) (alike_mk.trans (alikeAll_two ha (alike_mk.trans hp)))

theorem Term.ReadInBrackets.primary (hke : key.ReadInBrackets) (hv : key.Valid)
    (h : Runs (primary (.level n)) context c node c') (hc : c.At ('(' :: (key.text ++ ')' :: rest))) :
    node.alike (Term.paren key).tree = true ∧ ∃ c₁ : Cursor, c₁.Before (')' :: rest) ∧ c' = c₁.next := by
  have hk : c.token.kind = .punct .lparen := hc.kind
  rw [Script.primary, runs_startOffset_bind, runs_tokenKind_bind, hk] at h
  simp only [parenthesized, runs_bind, runs_startOffset, runs_expect, runs_finish] at h
  obtain ⟨_, _, ⟨rfl, rfl⟩, _, _, ⟨-, rfl⟩, inner, c₁, hi, _, _, ⟨-, rfl⟩, rfl, rfl⟩ := h
  obtain ⟨ha, hb⟩ := hke stops_rparen (by decide) hi (hv.opens.at_next hc.rest)
  exact ⟨alike_mk.trans (alikeAll_one ha), _, hb, rfl⟩

theorem Term.ReadInBrackets.paren (hk : key.ReadInBrackets) (hv : key.Valid) : (Term.paren key).ReadAsOperand := by
  intro n context c node c' rest hf hw hi h hc
  rw [Term.text, cons_append, append_assoc] at hc
  obtain ⟨head, c₁, hh, hg⟩ := leftHandSide_primary h
  obtain ⟨ha, c₂, hb, rfl⟩ := hk.primary hv hh hc
  exact hg (Cursor.before_next (hb.at_of_ink rfl).rest hi) ha

theorem Term.Valid.readAsOperand_word (hv : (Term.word name).Valid) : (Term.word name).ReadAsOperand := by
  intro n context c node c' rest hf hw hi h hc
  obtain ⟨head, c₁, hh, hg⟩ := leftHandSide_primary h
  obtain ⟨ha, hb⟩ := hv.primary_word hh hc hw hi
  exact hg hb ha

end

/-! ### Binary operators -/

/-- Operands have been read; the rule goes on with binary operators behind them. -/
inductive BinaryLoop (g : Grammar) (level : ℕ) (context : Context) (rest : List Char) (object node : Node) (c' : Cursor) :
    Prop
  | mk (n start : ℕ) (left : Node) (c₁ : Cursor)
      (loop : Runs (extendWith (binaryStep g start level) n left) context c₁ node c') (before : c₁.Before rest)
      (alike : left.alike object = true)

theorem joinGreater_none {u : Unit} (h : Runs joinGreater context c u c') (hk : c.token.kind = .punct sign)
    (hs : sign.endsOperand) : c' = c := by
  simp only [joinGreater, runs_bind, runs_sees, runs_ite] at h
  obtain ⟨isGreater, _, ⟨rfl, hg⟩, h⟩ := h
  have hn : ¬ isGreater = true := by
    rw [hg, hk]
    rintro ⟨⟩
    cases hs
  rw [if_neg hn] at h
  exact (runs_pure.mp h).1

theorem binaryStep_none {found : Option Node}
    (h : Runs (binaryStep g start level left) context c found c') (hk : c.token.kind = .punct sign)
    (hs : sign.endsOperand) (hb : bindsBehind level sign.level = false) : found = none ∧ c' = c := by
  rw [binaryStep, runs_bind] at h
  obtain ⟨_, c₁, hj, h⟩ := h
  cases joinGreater_none hj hk hs
  rw [runs_tokenKind_bind, hk] at h
  cases ho : binaryOp? (.punct sign) with
  | none =>
    rw [ho] at h
    exact (runs_pure.mp h).symm
  | some op =>
    obtain ⟨opLevel, logical, symbol⟩ := op
    rw [Punct.level, ho] at hb
    rw [ho] at h
    dsimp only at h
    rw [runs_read_bind, if_pos] at h
    · exact (runs_pure.mp h).symm
    · unfold bindsBehind at hb
      split at hb <;> simp_all

theorem BinaryLoop.step (h : BinaryLoop g level context rest object node c') :
    ∃ start left found c₁ c₂, Runs (binaryStep g start level left) context c₁ found c₂ ∧ c₁.Before rest ∧
      left.alike object ∧ (found = none → node.alike object ∧ c' = c₂) ∧
      ∀ ⦃further rest' object'⦄, found = some further → c₂.Before rest' → further.alike object' →
        BinaryLoop g level context rest' object' node c' := by
  obtain ⟨n, start, left, c₁, hl, hb, ha⟩ := h
  cases n with
  | zero => cases hl
  | succ n =>
    rw [extendWith, runs_bind] at hl
    obtain ⟨step, c₂, hs, hl⟩ := hl
    refine ⟨start, left, step, c₁, c₂, hs, hb, ha, ?_, ?_⟩
    · rintro rfl
      obtain ⟨rfl, rfl⟩ := runs_pure.mp hl
      exact ⟨ha, rfl⟩
    · rintro further rest' object' rfl hb' ha'
      exact ⟨n, start, _, c₂, hl, hb', ha'⟩

theorem BinaryLoop.stops (h : BinaryLoop g level context rest object node c') (hs : Stops rest sign)
    (hsi : sign.endsOperand) (hbi : bindsBehind level sign.level = false) :
    node.alike object ∧ c'.Before rest := by
  obtain ⟨start, left, found, c₁, c₂, hst, hb, -, he, -⟩ := h.step
  obtain ⟨rfl, rfl⟩ := binaryStep_none hst (hb.kind_of_stops hs) hsi hbi
  obtain ⟨ha, rfl⟩ := he rfl
  exact ⟨ha, hb⟩

/-- The term is read first where operands with binary operators start with it. -/
def Term.ReadAsChain (t : Term) : Prop :=
  ∀ ⦃n level context c node c' tail sign⦄, t.FitsIn context → bindsBehind level t.shape.level = true →
    Stops tail sign → sign.endsOperand = true → bindsBehind t.shape.level sign.level = false →
    Runs ((Grammar.level n).binary level) context c node c' → c.At (t.text ++ tail) →
    ∃ m, BinaryLoop (.level m) level context tail t.tree node c'

section

variable {o key : Term}

theorem Cursor.Plain.ne_punct (h : c.Plain) (hs : sign ≠ .lparen) : c.token.kind ≠ .punct sign := by
  cases h with
  | word name hk | this hk | paren hk =>
    rw [hk]
    rintro ⟨⟩ <;> exact hs rfl

theorem Cursor.Plain.ne_keyword {keyword : Keyword} (h : c.Plain) (hn : keyword ≠ .kwThis) :
    c.token.kind.keyword? ≠ some keyword := by
  cases h with
  | word name hk | this hk | paren hk =>
    rw [hk]
    rintro ⟨⟩ <;> exact hn rfl

/-- Operands without a prefix operator: the first one is read, and then binary operators behind it. -/
theorem binary_plain (h : Runs ((Grammar.level n).binary level) context c node c') (hc : c.Plain) :
    ∃ m left c₁, Runs (updated (.level m)) context c left c₁ ∧ ∀ ⦃rest object⦄, c₁.Before rest →
      left.alike object → ∃ m, BinaryLoop (.level m) level context rest object node c' := by
  obtain _ | n := n
  · cases h
  replace h : Runs (binary (.level n) level) context c node c' := h
  simp only [binary, firstOperand, runs_bind, runs_startOffset, runs_tokenKind, extend, runs_read] at h
  obtain ⟨_, _, ⟨rfl, rfl⟩, first, _, ⟨_, c, ⟨rfl, rfl⟩, hf⟩, context, c₁, ⟨rfl, rfl⟩, h⟩ := h
  replace hf : Runs (Grammar.level n).unary context c first c₁ := by
    cases hc with
    | word name hk | this hk | paren hk => rwa [hk] at hf
  obtain _ | n := n
  · cases hf
  replace hf : Runs (unary (.level n)) context c first c₁ := hf
  rw [unary, runs_startOffset_bind, runs_read_bind, runs_tokenKind_bind] at hf
  refine ⟨n, first, c₁, ?_, fun rest object hb ha => ⟨_, _, _, first, _, h, hb, ha⟩⟩
  cases hc with
  | word name hk | this hk | paren hk => rwa [hk] at hf

theorem updated_plain (h : Runs (updated g) context c node c') (hc : c.Plain) :
    ∃ operand c₁, Runs g.leftHandSide context c operand c₁ ∧
      (∀ sign, c₁.token.kind = .punct sign → sign.endsOperand → node = operand ∧ c' = c₁) ∧
      ∀ increment target, c₁.token.kind = .punct (if increment then .plusPlus else .minusMinus) →
        c₁.token.newline = false → simpleTarget? operand = some target →
        ∃ span, node = .mk (.update increment false) span [target] ∧ c' = c₁.next := by
  rw [updated, runs_startOffset_bind, runs_tokenKind_bind] at h
  split at h
  · next hk => exact absurd hk (hc.ne_punct (by decide))
  · next hk => exact absurd hk (hc.ne_punct (by decide))
  rw [runs_read_bind] at h
  simp only [runs_bind, runs_sees, runs_ite, runs_token] at h
  obtain ⟨isLess, c, ⟨rfl, hi⟩, h⟩ := h
  obtain rfl : isLess = false := eq_false_iff.mpr (mt hi.mp (hc.ne_punct (by decide)))
  rw [Bool.and_false, if_neg Bool.false_ne_true] at h
  obtain ⟨operand, _, ho, _, c₁, ⟨rfl, rfl⟩, h⟩ := h
  refine ⟨operand, c₁, ho, ?_, ?_⟩
  · intro sign hk hs
    split at h
    · next hto =>
      rw [hto] at hk
      cases hk
      cases hs
    · next hto =>
      rw [hto] at hk
      cases hk
      cases hs
    · exact (runs_pure.mp h).symm
  · intro increment target hk hl ht
    rcases hto : c₁.token with ⟨kind, span, newline⟩
    rw [hto] at hk hl
    dsimp only at hk hl
    subst hk hl
    rw [hto] at h
    have hu : updateTarget operand = pure target := by rw [updateTarget, ht]
    rw [hu] at h
    cases increment <;>
    · simp only [if_true, if_false, false_eq_true, pure_bind, runs_bind, runs_next, runs_finish] at h
      obtain ⟨_, _, rfl, rfl, rfl⟩ := h
      exact ⟨_, rfl, rfl⟩

theorem Term.ReadAsOperand.chain (ho : t.ReadAsOperand) (hv : t.Valid) : t.ReadAsChain := by
  intro n level context c node c' tail sign hf _ hs hsi _ h hc
  have hp := hv.opens.plain hs.word hc
  obtain ⟨m, left, c₁, hu, hg⟩ := binary_plain h hp
  obtain ⟨operand, c₂, hl, he, -⟩ := updated_plain hu hp
  obtain _ | m := m
  · cases hl
  obtain ⟨ha, hb⟩ := (ho hf hs.word hs.inked hl hc).stops hs (.inl hsi)
  obtain ⟨rfl, rfl⟩ := he sign (hb.kind_of_stops hs) hsi
  exact hg hb ha

theorem targets_of_alike (h : node.alike t.tree) (ht : t.isTarget) :
    simpleTarget? node = some node ∧ ∀ op, assignTarget? op node = some node := by
  have hs := shape_of_alike h
  rw [shape_tree (Nat.le_trans (by decide) (tight_of_isTarget ht))] at hs
  obtain ⟨shape, span, parts⟩ := node
  rw [Node.shape] at hs
  subst hs
  cases t with
  | word name =>
    rw [Term.isTarget, bne_iff_ne] at ht
    rw [Term.shape, if_neg ht]
    exact ⟨rfl, fun op => by cases op <;> rfl⟩
  | member | index => exact ⟨rfl, fun op => by cases op <;> rfl⟩
  | _ => cases ht

/-- A postfix operator is read behind its target. -/
theorem Term.ReadAsOperand.update (ho : o.ReadAsOperand) (hv : o.Valid) (ht : o.isTarget) (increment : Bool) :
    (Term.update o increment).ReadAsChain := by
  intro n level context c node c' tail sign hf _ hs hsi _ h hc
  have hm : Stops (Term.mark increment ++ tail) (if increment then .plusPlus else .minusMinus) := by
    cases increment with
    | true => exact stops_plusPlus
    | false => exact stops_minusMinus
  rw [Term.text, append_assoc] at hc
  have hp := hv.opens.plain hm.word hc
  obtain ⟨m, left, c₁, hu, hg⟩ := binary_plain h hp
  obtain ⟨operand, c₂, hl, -, hup⟩ := updated_plain hu hp
  obtain _ | m := m
  · cases hl
  obtain ⟨ha, hb⟩ := (ho hf hm.word hm.inked hl hc).stops hm (by cases increment <;> simp)
  have hr : c₂.rest = tail := by cases increment <;> exact (hb.at_of_ink rfl).rest
  obtain ⟨first, more, -, -, hli⟩ := id hb
  obtain ⟨span, rfl, rfl⟩ := hup increment operand (hb.kind_of_stops hm) hli (targets_of_alike ha ht).1
  exact hg (Cursor.before_next hr hs.inked) (alike_mk.trans (alikeAll_one ha))

theorem Cursor.Before.flag (h : c.Before rest) (bad : Bool) : (c.flag bad).Before rest := by
  obtain ⟨first, more, hs, ⟨hk, hr⟩, hl⟩ := h
  exact ⟨first, more, hs, ⟨hk, hr⟩, hl⟩

/-- A binary operator is read where one is written that binds tight enough. -/
theorem binaryStep_some {opLevel : ℕ} {logical : Bool} {op : String} {found : Option Node}
    (h : Runs (binaryStep g start level left) context c found c') (hk : c.token.kind = .punct sign)
    (hs : sign.endsOperand) (ho : binaryOp? (.punct sign) = some (opLevel, logical, op))
    (hb : bindsBehind level opLevel) :
    ∃ span right c₁ bad, Runs (g.binary opLevel) context c.next right c₁ ∧ c' = c₁.flag bad ∧
      found = some (.mk (if logical then .logical op else .binary op) span [left, right]) := by
  have hn : op ≠ "in" ∧ op ≠ "as" ∧ op ≠ "satisfies" := by
    unfold binaryOp? at ho
    split at ho <;> first | (cases ho; decide) | simp_all
  rw [binaryStep, runs_bind] at h
  obtain ⟨_, c₁, hj, h⟩ := h
  cases joinGreater_none hj hk hs
  rw [runs_tokenKind_bind, hk, ho] at h
  dsimp only at h
  rw [runs_read_bind, if_neg, if_neg (by simp [hn.1]), if_neg (by simp [hn.2])] at h
  · rw [runs_next_bind, runs_bind] at h
    obtain ⟨right, c₁, hr, h⟩ := h
    cases logical with
    | true =>
      simp only [if_true, runs_bind, runs_flawIf, runs_finish, runs_pure] at h
      obtain ⟨_, _, rfl, _, _, ⟨rfl, rfl⟩, rfl, rfl⟩ := h
      exact ⟨_, right, c₁, _, hr, rfl, rfl⟩
    | false =>
      simp only [false_eq_true, if_false, runs_bind, runs_finish, runs_pure] at h
      obtain ⟨_, _, ⟨rfl, rfl⟩, rfl, rfl⟩ := h
      exact ⟨_, right, c', false, hr, by simp [Cursor.flag], rfl⟩
  · unfold bindsBehind at hb
    split at hb <;> simp_all

theorem level_binary (op : String) (left right : Term) : (Term.binary op left right).shape.level = symbolLevel op := by
  rw [Term.shape]
  split <;> rfl

theorem Term.ReadAsChain.binary {op : String} (ho : o.ReadAsChain) (hk : key.ReadAsChain)
    (hv : (Term.binary op o key).Valid) : (Term.binary op o key).ReadAsChain := by
  intro n level context c node c' tail sign hf hl hs hsi hn h hc
  obtain ⟨-, hop, ho', hk', hv'⟩ := hv
  obtain ⟨opSign, logical, hm, he, -, hop, hlo⟩ := sign_of_operator? hop
  have hle : opSign.level = symbolLevel op := by
    rw [Punct.level, hop]
    rfl
  rw [level_binary] at hl hn
  have hbo := symbolLevel_bounds op
  rw [bindsBehind_iff] at hl hk'
  have hn' := mt bindsBehind_iff.mpr (eq_false_iff.mp hn)
  have ho'' := mt bindsBehind_iff.mpr (eq_false_iff.mp ho')
  rw [Term.text, append_assoc, cons_append, append_assoc, cons_append] at hc
  have hf' : ∀ hd, _ ∧ _ := fun hd => or_eq_false_iff.mp (hf hd)
  obtain ⟨m, hlp⟩ := ho (fun hd => (hf' hd).1) (bindsBehind_iff.mpr (by omega)) (stops_sign hm) he
    (hle ▸ ho') h hc
  obtain ⟨start, left, found, c₁, c₂, hst, hb, ha, -, hg⟩ := hlp.step
  obtain ⟨span, right, c₃, bad, hr, rfl, rfl⟩ :=
    binaryStep_some hst (hb.kind_of_stops (stops_sign hm)) he hop (bindsBehind_iff.mpr hl)
  have hat := hv'.opens.at_next_blank (hb.rest_of_sign hm)
  obtain ⟨m', hl'⟩ := hk (fun hd => (hf' hd).2) (bindsBehind_iff.mpr hk') hs hsi
    (eq_false_iff.mpr (mt bindsBehind_iff.mp (by omega))) hr hat
  obtain ⟨ha', hb'⟩ := hl'.stops hs hsi hn
  have hsh : (if logical then .logical op else .binary op) = (Term.binary op o key).shape := by
    rw [hlo, Term.shape]
    simp
  exact ⟨m, hg rfl (hb'.flag bad) (hsh ▸ alike_mk.trans (alikeAll_two ha ha'))⟩

end

/-! ### Assignments and arrow functions -/

theorem judgeArrow_plain {verdict : Verdict} (h : Runs judgeArrow context c verdict c') (hc : c.Plain) :
    verdict = .no := by
  simp only [Runs, judgeArrow] at h
  split at h
  · next found c₁ hj =>
    cases h
    replace hj := runs_bind.mp hj
    obtain ⟨isAsync, c₂, hs, hj⟩ := hj
    obtain ⟨rfl, hs⟩ := runs_seesWord.mp hs
    rw [if_neg (mt hs.mp (hc.ne_keyword (by decide))), runs_tokenKind_bind] at hj
    cases hc with
    | word name hk | this hk =>
      rw [hk] at hj
      exact (runs_pure.mp hj).2
    | paren hk hju =>
      rw [hk] at hj
      exact hju (runs_next_bind.mp hj)
  · cases h
    rfl
  · cases h

/-- Where an expression starts with operands, these are read first. -/
theorem assignment_plain (h : Runs (assignment g allowReturn) context c node c') (hc : c.Plain) :
    ∃ start left c₁, Runs (g.binary 0) context c left c₁ ∧
      Runs (assignmentRest g start allowReturn left) context c₁ node c' := by
  rw [assignment, runs_startOffset_bind, runs_read_bind] at h
  simp only [seesYield, arrowFunction?, seesAsyncArrow, runs_bind, runs_seesWord, runs_ite] at h
  obtain ⟨yields, c₁, ⟨isYield, _, ⟨rfl, hyi⟩, hy⟩, h⟩ := h
  rw [if_neg (mt hyi.mp (hc.ne_keyword (by decide)))] at hy
  obtain ⟨rfl, rfl⟩ := runs_pure.mp hy
  rw [if_neg Bool.false_ne_true] at h
  obtain ⟨function, c₂, ⟨verdict, _, hv, hf⟩, h⟩ := h
  cases runs_judgeArrow hv
  cases judgeArrow_plain hv hc
  obtain ⟨rfl, rfl⟩ := runs_pure.mp hf
  simp only [runs_bind, runs_seesWord, runs_ite] at h
  obtain ⟨async, c₃, ⟨isAsync, _, ⟨rfl, has⟩, ha⟩, h⟩ := h
  rw [if_neg (mt has.mp (hc.ne_keyword (by decide)))] at ha
  obtain ⟨rfl, rfl⟩ := runs_pure.mp ha
  rw [if_neg Bool.false_ne_true] at h
  obtain ⟨left, c₄, hl, h⟩ := h
  exact ⟨_, left, c₄, hl, h⟩

/-- The signs behind an expression without commas. -/
def Punct.endsValue : Punct → Bool
  | .comma | .rparen | .rbracket | .rbrace => true
  | _ => false

/-- The term is read as a whole where an expression without commas is read. -/
def Term.ReadAsValue (t : Term) : Prop :=
  ∀ ⦃n allowReturn context c node c' tail sign⦄, t.FitsIn context → Stops tail sign → sign.endsValue = true →
    Runs ((Grammar.level n).assignment allowReturn) context c node c' → c.At (t.text ++ tail) →
    node.alike t.tree = true ∧ c'.Before tail

theorem level_pos_of_tight (h : 2 ≤ shape.tightness) : 1 ≤ shape.level := by
  cases shape <;> simp_all [Shape.level, Shape.tightness, symbolLevel_bounds]

theorem Term.ReadAsChain.assignmentRest (hch : t.ReadAsChain) (hv : t.Valid) (ht : 2 ≤ t.tightness) (hf : t.FitsIn context)
    (hs : Stops tail sign) (hsi : sign.endsOperand) (hl : sign.level = 0)
    (h : Runs ((Grammar.level n).assignment allowReturn) context c node c') (hc : c.At (t.text ++ tail)) :
    ∃ m start left c₁, left.alike t.tree ∧ c₁.Before tail ∧
      Runs (Script.assignmentRest (.level m) start allowReturn left) context c₁ node c' := by
  obtain _ | n := n
  · cases h
  obtain ⟨start, left, c₁, hlf, h⟩ := assignment_plain h (hv.opens.plain hs.word hc)
  have hle := level_pos_of_tight ht
  have hn (level : ℕ) : bindsBehind level sign.level = false := eq_false_iff.mpr (mt bindsBehind_iff.mp (by omega))
  obtain ⟨m, hlo⟩ := hch hf (bindsBehind_iff.mpr (.inl hle)) hs hsi (hn _) hlf hc
  obtain ⟨ha, hb⟩ := hlo.stops hs hsi (hn 0)
  exact ⟨n, start, left, c₁, ha, hb, h⟩

theorem assignmentRest_stops (hk : c.token.kind = .punct sign) (har : sign ≠ .arrow)
    (ha : ∀ op, sign ≠ .assign op) (h : Runs (assignmentRest g start allowReturn left) context c node c') :
    Runs (conditionalRest g start allowReturn left) context c node c' := by
  rw [assignmentRest, runs_tokenKind_bind, hk] at h
  split at h
  · next heq => exact absurd (TokenKind.punct.inj heq) har
  · next heq => exact absurd (TokenKind.punct.inj heq) (ha _)
  · exact h

theorem Term.ReadAsChain.value (hch : t.ReadAsChain) (hv : t.Valid) (ht : 2 ≤ t.tightness) : t.ReadAsValue := by
  intro n allowReturn context c node c' tail sign hfi hs hsi h hc
  have hf : sign.endsOperand = true ∧ sign.level = 0 ∧ sign ≠ .arrow ∧ sign ≠ .question ∧ ∀ op, sign ≠ .assign op := by
    cases sign <;> simp_all [Punct.endsValue] <;> decide
  obtain ⟨hen, hl, har, hq, has⟩ := hf
  obtain ⟨m, start, left, c₁, ha, hb, h⟩ := hch.assignmentRest hv ht hfi hs hen hl h hc
  have hk := hb.kind_of_stops hs
  replace h := assignmentRest_stops hk har has h
  rw [conditionalRest, runs_bind] at h
  obtain ⟨isTest, c₂, he, h⟩ := h
  rw [runs_eat, if_neg (hk ▸ fun heq => hq (TokenKind.punct.inj heq))] at he
  obtain ⟨rfl, rfl⟩ := he
  rw [if_neg Bool.false_ne_true] at h
  obtain ⟨rfl, rfl⟩ := runs_pure.mp h
  exact ⟨ha, hb⟩

theorem Term.ReadAsValue.assign {op : AssignOp} {o value : Term} (hch : o.ReadAsChain) (hva : value.ReadAsValue)
    (hv : (Term.assign op o value).Valid) : (Term.assign op o value).ReadAsValue := by
  intro n allowReturn context c node c' tail sign hf hs hsi h hc
  obtain ⟨hv, ht, hm, -, hv'⟩ := hv
  have hf' : ∀ hd, _ ∧ _ := fun hd => or_eq_false_iff.mp (hf hd)
  rw [Term.text, append_assoc, cons_append, append_assoc, cons_append] at hc
  obtain ⟨m, start, left, c₁, ha, hb, h⟩ := hch.assignmentRest hv (Nat.le_trans (by decide) (tight_of_isTarget ht))
    (fun hd => (hf' hd).1) (stops_sign hm) rfl rfl h hc
  rw [Script.assignmentRest, runs_tokenKind_bind, hb.kind_of_stops (stops_sign hm)] at h
  simp only [(targets_of_alike ha ht).2, runs_bind, runs_next, runs_finish] at h
  obtain ⟨_, _, rfl, node, c₂, hn, rfl, rfl⟩ := h
  obtain ⟨ha', hb'⟩ := hva (fun hd => (hf' hd).2) hs hsi hn (hv'.opens.at_next_blank (hb.rest_of_sign hm))
  exact ⟨alike_mk.trans (alikeAll_two ha ha'), hb'⟩

/-- A value behind an arrow is the body of the function. -/
theorem Term.ReadAsValue.arrowBody {isAsync isExpression : Bool} {body : List Node} (hva : t.ReadAsValue) (hv : t.Valid)
    (hs : Stops tail sign) (hsi : sign.endsValue)
    (h : Runs (arrowBody (.level n) isAsync allowReturn) context c (isExpression, body) c') (hc : c.At (t.text ++ tail)) :
    isExpression ∧ ∃ node, body = [node] ∧ node.alike t.tree ∧ c'.Before tail := by
  simp only [Script.arrowBody, runs_bind, runs_sees, runs_ite, runs_withReader, runs_pure] at h
  obtain ⟨isBlock, c, ⟨rfl, hbl⟩, h⟩ := h
  rw [if_neg (mt hbl.mp ((hv.opens.plain hs.word hc).ne_punct (by decide)))] at h
  obtain ⟨node, c₁, hn, rfl, h⟩ := h
  cases h
  obtain ⟨ha, hb⟩ := hva (fun hd => by cases hd) hs hsi hn hc
  exact ⟨rfl, node, rfl, ha, hb⟩

theorem Term.ReadAsValue.arrow {param : String} {value : Term} (hva : value.ReadAsValue)
    (hv : (Term.arrow param value).Valid) : (Term.arrow param value).ReadAsValue := by
  intro n allowReturn context c node c' tail sign hfi hs hsi h hc
  obtain ⟨hn, hf, -, hv'⟩ := hv
  have hw : (Term.word param).Valid := ⟨hn, .inr hf⟩
  have hne : param ≠ "this" := by
    rintro rfl
    cases hf
  rw [Term.text, append_assoc] at hc
  obtain ⟨m, start, left, c₁, ha, hb, h⟩ := (hw.readAsOperand_word.chain hw).assignmentRest hw
    (Nat.le_trans (by decide) (tight_word param)) (fun _ => rfl) stops_arrow rfl rfl h hc
  obtain ⟨shape, span, parts⟩ := left
  obtain rfl : shape = .reference param := by
    have hsh := shape_of_alike ha
    rw [shape_tree (Nat.le_trans (by decide) (tight_word param)), Term.shape, if_neg hne] at hsh
    exact hsh
  rw [Script.assignmentRest, runs_tokenKind_bind, hb.kind_of_stops stops_arrow] at h
  simp only [simpleArrow, arrowSign, runs_bind, runs_onNewLine, runs_flawIf, runs_expect, runs_finish] at h
  obtain ⟨_, _, ⟨_, _, ⟨rfl, rfl⟩, _, _, rfl, -, rfl⟩, ⟨isExpression, body⟩, c₂, hbo, h⟩ := h
  obtain ⟨rfl, rfl⟩ := h
  obtain ⟨rfl, node, rfl, ha', hb'⟩ := hva.arrowBody hv' hs hsi hbo (hv'.opens.at_next_blank (hb.at_of_blank).rest)
  exact ⟨alike_mk.trans (alikeAll_two (alike_mk.trans (alikeAll_one (alike_mk.trans (alikeAll_one alike_mk)))) ha'), hb'⟩

/-! ### Commas -/

section

variable {m : ℕ} {items parts : List Node} {first second : Term}

/-- One step of reading expressions with commas between them. -/
def sequenceStep (g : Grammar) (parts : List Node) : Parse (Option (List Node)) := do
  if ← eat .comma then
    let value ← g.assignment true
    return some (value :: parts)
  else return none

/-- The term is read behind a comma, up to a closing bracket. -/
def Term.ReadBehindComma (t : Term) : Prop :=
  ∀ ⦃n context m c items found c' tail sign⦄, context.inDecorator = false → Stops tail sign → sign ∈ [.rparen, .rbracket] →
    Runs (extendWith (sequenceStep (.level n)) m items) context c found c' → c.Before (',' :: ' ' :: (t.text ++ tail)) →
    ∃ nodes, found = nodes.reverse ++ items ∧ alikeAll nodes t.trees = true ∧ c'.Before tail

theorem Term.ReadAsValue.sequenceStep (hvl : t.ReadAsValue) (hv : t.Valid) (hd : context.inDecorator = false)
    (hs : Stops tail sign) (hsi : sign.endsValue)
    (h : Runs (extendWith (sequenceStep (.level n)) m items) context c parts c')
    (hc : c.Before (',' :: ' ' :: (t.text ++ tail))) : ∃ m value c₁, value.alike t.tree ∧ c₁.Before tail ∧
      Runs (extendWith (Script.sequenceStep (.level n)) m (value :: items)) context c₁ parts c' := by
  obtain _ | m := m
  · cases h
  rw [extendWith, runs_bind] at h
  obtain ⟨step, c₁, hst, h⟩ := h
  simp only [Script.sequenceStep, runs_bind, runs_eat, if_pos (hc.kind_of_stops stops_comma)] at hst
  obtain ⟨_, _, ⟨rfl, rfl⟩, hst⟩ := hst
  simp only [if_true, runs_bind, runs_pure] at hst
  obtain ⟨value, _, hva, rfl, rfl⟩ := hst
  obtain ⟨ha, hb⟩ := hvl (fun hy => by cases hd.symm.trans hy) hs hsi hva
    (hv.opens.at_next_blank (hc.at_of_ink rfl).rest)
  exact ⟨m, value, _, ha, hb, h⟩

theorem sequenceStep_stops (h : Runs (extendWith (sequenceStep g) m items) context c parts c')
    (hk : c.token.kind ≠ .punct .comma) : parts = items ∧ c' = c := by
  obtain _ | m := m
  · cases h
  rw [extendWith, runs_bind] at h
  obtain ⟨step, c₁, hs, h⟩ := h
  simp only [sequenceStep, runs_bind, runs_eat, if_neg hk] at hs
  obtain ⟨_, _, ⟨rfl, rfl⟩, hs⟩ := hs
  rw [if_neg Bool.false_ne_true] at hs
  obtain ⟨rfl, rfl⟩ := runs_pure.mp hs
  exact (runs_pure.mp h).symm

theorem endsValue_of_mem (h : sign ∈ [.rparen, .rbracket]) : sign.endsValue ∧ sign ≠ .comma := by
  rcases mem_pair.mp h with rfl | rfl <;> decide

theorem Term.ReadAsValue.behindComma (hva : t.ReadAsValue) (hv : t.Valid) (ht : 1 ≤ t.tightness) : t.ReadBehindComma := by
  intro n context m c items found c' tail sign hd hs hsi h hc
  obtain ⟨he, hco⟩ := endsValue_of_mem hsi
  obtain ⟨m, value, c₁, ha, hb, h⟩ := hva.sequenceStep hv hd hs he h hc
  obtain ⟨rfl, rfl⟩ := sequenceStep_stops h (hb.kind_of_stops hs ▸ fun heq => hco (TokenKind.punct.inj heq))
  exact ⟨[value], rfl, by rw [trees_eq ht]; exact alikeAll_one ha, hb⟩

theorem Term.ReadBehindComma.sequence (hf : first.ReadAsValue) (hr : second.ReadBehindComma)
    (hv : (Term.sequence first second).Valid) : (Term.sequence first second).ReadBehindComma := by
  intro n context m c items found c' tail sign hd hs hsi h hc
  rw [Term.text, append_assoc] at hc
  obtain ⟨m, value, c₁, ha, hb, h⟩ := hf.sequenceStep hv.1 hd stops_comma rfl h hc
  obtain ⟨nodes, rfl, hn, hb'⟩ := hr hd hs hsi h hb
  refine ⟨value :: nodes, by simp, ?_, hb'⟩
  rw [Term.trees, trees_eq hv.2.1]
  exact and_eq_true_iff.mpr ⟨ha, hn⟩

theorem Term.ReadAsValue.inBrackets (hva : t.ReadAsValue) : t.ReadInBrackets := by
  intro n context c node c' tail sign hs hsi h hc
  obtain ⟨he, hco⟩ := endsValue_of_mem hsi
  obtain _ | n := n
  · cases h
  rw [runs_inBrackets] at h
  replace h : Runs (expression (.level n)) _ c node c' := h
  rw [expression, runs_startOffset_bind] at h
  simp only [runs_bind, runs_sees, runs_ite] at h
  obtain ⟨value, c₁, hv, isComma, _, ⟨rfl, hi⟩, h⟩ := h
  obtain ⟨ha, hb⟩ := hva (fun hd => by cases hd) hs he hv hc
  have hn : ¬ isComma = true := by
    rw [hi, hb.kind_of_stops hs]
    exact fun heq => hco (TokenKind.punct.inj heq)
  rw [if_neg hn] at h
  obtain ⟨rfl, rfl⟩ := runs_pure.mp h
  exact ⟨ha, hb⟩

theorem Term.trees_ne_nil (t : Term) : t.trees ≠ [] := by
  induction t with
  | sequence first rest ih _ => simp [Term.trees, ih]
  | _ => exact cons_ne_nil _ _

theorem Term.ReadBehindComma.inBrackets (hf : first.ReadAsValue) (hr : second.ReadBehindComma)
    (hv : (Term.sequence first second).Valid) : (Term.sequence first second).ReadInBrackets := by
  intro n context c node c' tail sign hs hsi h hc
  rw [Term.text, append_assoc] at hc
  obtain _ | n := n
  · cases h
  rw [runs_inBrackets] at h
  replace h : Runs (expression (.level n)) _ c node c' := h
  rw [expression, runs_startOffset_bind] at h
  simp only [runs_bind, runs_sees, runs_ite, extend, runs_read, runs_finish] at h
  obtain ⟨value, c₁, hva, isComma, _, ⟨rfl, hi⟩, h⟩ := h
  obtain ⟨ha, hb⟩ := hf (fun hd => by cases hd) stops_comma rfl hva hc
  rw [if_pos (hi.mpr (hb.kind_of_stops stops_comma))] at h
  obtain ⟨parts, c₂, ⟨_, _, ⟨rfl, rfl⟩, hp⟩, rfl, rfl⟩ := h
  obtain ⟨nodes, rfl, hn, hb'⟩ := hr rfl hs hsi hp hb
  refine ⟨?_, hb'⟩
  obtain ⟨tree, more, ht⟩ := exists_cons_of_ne_nil second.trees_ne_nil
  rw [ht] at hn
  rw [Term.tree, Term.trees, trees_eq hv.2.1, ht, reverse_append, reverse_reverse]
  exact alike_mk.trans (and_eq_true_iff.mpr ⟨ha, hn⟩)

theorem readUntil_stops (h : Runs (readUntil (sees .rparen) (argumentStep g) m items) context c parts c')
    (hk : c.token.kind = .punct .rparen) : parts = items.reverse ∧ c' = c := by
  obtain _ | m := m
  · cases h
  rw [readUntil, runs_bind] at h
  obtain ⟨isClose, _, hs, h⟩ := h
  obtain ⟨rfl, hc⟩ := runs_sees.mp hs
  rw [if_pos (hc.mpr hk)] at h
  exact (runs_pure.mp h).symm

theorem Term.ReadAsValue.argumentStep (hvl : t.ReadAsValue) (hv : t.Valid) (hd : context.inDecorator = false)
    (hs : Stops tail sign) (hsi : sign.endsValue)
    (h : Runs (readUntil (sees .rparen) (argumentStep (.level n)) m items) context c parts c')
    (hc : c.At (t.text ++ tail)) : ∃ m value c₁, value.alike t.tree ∧ c₁.Before tail ∧
      Runs (readUntil (sees .rparen) (Script.argumentStep (.level n)) m (value :: items)) context
        (if sign = .rparen then c₁ else c₁.next) parts c' := by
  have hp := hv.opens.plain hs.word hc
  obtain _ | m := m
  · cases h
  rw [readUntil, runs_bind] at h
  obtain ⟨isClose, _, hse, h⟩ := h
  obtain ⟨rfl, hcl⟩ := runs_sees.mp hse
  rw [if_neg (mt hcl.mp (hp.ne_punct (by decide)))] at h
  obtain ⟨value, c₁, hst, h⟩ := runs_bind.mp h
  rw [Script.argumentStep, runs_bind] at hst
  obtain ⟨_, c₂, hsp, he⟩ := hst
  rw [spreadOrValue, runs_startOffset_bind, runs_bind] at hsp
  obtain ⟨_, _, hea, hva⟩ := hsp
  rw [runs_eat, if_neg (hp.ne_punct (by decide))] at hea
  obtain ⟨rfl, rfl⟩ := hea
  obtain ⟨ha, hb⟩ := hvl (fun hy => by cases hd.symm.trans hy) hs hsi hva hc
  simp only [runs_bind, runs_sees] at he
  obtain ⟨isLast, _, ⟨rfl, hl⟩, he⟩ := he
  rw [hb.kind_of_stops hs, TokenKind.punct.injEq] at hl
  by_cases hcl : sign = .rparen
  · rw [hl.mpr hcl] at he
    obtain ⟨rfl, rfl⟩ := runs_pure.mp he
    exact ⟨m, _, _, ha, hb, by rwa [if_pos hcl]⟩
  · rw [eq_false_iff.mpr (mt hl.mp hcl)] at he
    simp only [Bool.not_false, if_true, runs_bind, runs_expect, runs_pure] at he
    obtain ⟨_, _, ⟨-, rfl⟩, rfl, rfl⟩ := he
    exact ⟨m, _, _, ha, hb, by rwa [if_neg hcl]⟩

theorem Term.ReadAsValue.arguments (hva : t.ReadAsValue) (hv : t.Valid) (ht : 1 ≤ t.tightness) : t.ReadAsArguments := by
  intro n context m c items found c' tail hd hs h hc
  obtain ⟨m, value, c₁, ha, hb, h⟩ := hva.argumentStep hv hd hs rfl h hc
  obtain ⟨rfl, rfl⟩ := readUntil_stops h (hb.kind_of_stops hs)
  exact ⟨[value], by simp, by rw [trees_eq ht]; exact alikeAll_one ha, hb⟩

theorem Term.ReadAsArguments.sequence (hf : first.ReadAsValue) (hr : second.ReadAsArguments)
    (hv : (Term.sequence first second).Valid) : (Term.sequence first second).ReadAsArguments := by
  intro n context m c items found c' tail hd hs h hc
  rw [Term.text, append_assoc] at hc
  obtain ⟨m, value, c₁, ha, hb, h⟩ := hf.argumentStep hv.1 hd stops_comma rfl h hc
  obtain ⟨nodes, rfl, hn, hb'⟩ := hr hd hs h (hv.2.2.opens.at_next_blank (hb.at_of_ink rfl).rest)
  refine ⟨value :: nodes, by simp, ?_, hb'⟩
  rw [Term.trees, trees_eq hv.2.1]
  exact and_eq_true_iff.mpr ⟨ha, hn⟩

end

/-! ### Terms -/

/-- How a term is read, as far as it binds tight enough. -/
structure Term.Reads (t : Term) : Prop where
  operand : 4 ≤ t.tightness → t.ReadAsOperand
  chain : 2 ≤ t.tightness → t.ReadAsChain
  value : 1 ≤ t.tightness → t.ReadAsValue
  brackets : t.ReadInBrackets
  arguments : t.ReadAsArguments
  comma : t.ReadBehindComma

theorem Term.ReadAsValue.reads (h : t.ReadAsValue) (hv : t.Valid) (ht : t.tightness = 1) : t.Reads where
  operand hl := by omega
  chain hl := by omega
  value _ := h
  brackets := h.inBrackets
  arguments := h.arguments hv (by omega)
  comma := h.behindComma hv (by omega)

theorem Term.ReadAsChain.reads (h : t.ReadAsChain) (hv : t.Valid) (ht : t.tightness = 2 ∨ t.tightness = 3) : t.Reads :=
  have hva := h.value hv (by omega)
  ⟨fun hl => by omega, fun _ => h, fun _ => hva, hva.inBrackets, hva.arguments hv (by omega),
    hva.behindComma hv (by omega)⟩

theorem Term.ReadAsOperand.reads (h : t.ReadAsOperand) (hv : t.Valid) (ht : 4 ≤ t.tightness) : t.Reads :=
  have hva := (h.chain hv).value hv (by omega)
  ⟨fun _ => h, fun _ => h.chain hv, fun _ => hva, hva.inBrackets, hva.arguments hv (by omega),
    hva.behindComma hv (by omega)⟩

/-- **Terms:** wherever a rule reads at a valid term that binds tight enough, it reads the tree of the term. -/
theorem Term.Valid.reads (h : t.Valid) : t.Reads := by
  induction t with
  | word name => exact h.readAsOperand_word.reads h (tight_word name)
  | member object name ih => exact (((ih h.1).operand h.2.1).member h.2.2).reads h (Nat.le_refl 4)
  | index object key ih ihKey =>
    exact (((ih h.1).operand h.2.1).index (ihKey h.2.2).brackets h.2.2).reads h (Nat.le_refl 4)
  | invoke callee ih => exact (((ih h.1).operand h.2).invoke h.2).reads h (Nat.le_refl 4)
  | call callee arguments ih ihArguments =>
    exact (((ih h.1).operand h.2.1).call h.2.1 (ihArguments h.2.2).arguments h.2.2).reads h (Nat.le_refl 4)
  | paren inner ih => exact ((ih h.1).brackets.paren h.1).reads h (Nat.le_refl 4)
  | update target increment ih =>
    exact (((ih h.1).operand (tight_of_isTarget h.2)).update h.1 h.2 increment).reads h (.inr rfl)
  | binary op left right ih ihRight =>
    have hti : (Term.binary op left right).tightness = 2 := by
      rw [Term.tightness, Term.shape]
      split <;> rfl
    exact (((ih h.1).chain h.tight_parts.1).binary ((ihRight h.2.2.2.2).chain h.tight_parts.2) h).reads h (.inl hti)
  | assign op target value ih ihValue =>
    have ht := tight_of_isTarget h.2.1
    exact (ReadAsValue.assign ((ih h.1).chain (by omega)) ((ihValue h.2.2.2.2).value h.2.2.2.1) h).reads h rfl
  | arrow param value ih => exact (((ih h.2.2.2).value h.2.2.1).arrow h).reads h rfl
  | sequence first rest ih ihRest =>
    have hf := (ih h.1).value h.2.1
    have hr := ihRest h.2.2
    refine ⟨?_, ?_, ?_, hr.comma.inBrackets hf h, hr.arguments.sequence hf h, hr.comma.sequence hf h⟩ <;> rintro ⟨⟩

/-! ### Roles -/

section

variable {code : List Char} {o : Term}

/-- A term in front of a question mark is the whole test of a conditional. -/
theorem Term.Valid.test (hv : t.Valid) (ht : 2 ≤ t.tightness) (hf : t.FitsIn context)
    (h : Runs ((Grammar.level n).assignment allowReturn) context c node c')
    (hc : c.At (t.text ++ ' ' :: '?' :: ' ' :: rest)) : node.test?.any (·.alike t.tree) := by
  obtain ⟨m, start, left, c₁, ha, hb, h⟩ := (hv.reads.chain ht).assignmentRest hv ht hf stops_question rfl rfl h hc
  have hk := hb.kind_of_stops stops_question
  replace h := assignmentRest_stops hk (by decide) (fun _ => by rintro ⟨⟩) h
  rw [conditionalRest, runs_bind] at h
  obtain ⟨isTest, c₂, he, h⟩ := h
  rw [runs_eat, if_pos hk] at he
  obtain ⟨rfl, rfl⟩ := he
  simp only [if_true, runs_bind, runs_finish] at h
  obtain ⟨yes, _, -, _, _, -, no, _, -, rfl, rfl⟩ := h
  exact ha

/-- The cursor stands at an empty parameter list in front of an arrow. -/
structure Cursor.AtEmptyParams (c : Cursor) : Prop where
  lparen : c.token.kind = .punct .lparen
  rparen : c.next.token.kind = .punct .rparen
  arrow : c.next.next.token.kind = .punct .arrow

theorem judgeArrow_emptyParams (hc : c.AtEmptyParams) : Runs judgeArrow context c .yes c := by
  unfold Runs judgeArrow
  extract_lets judgeSign judge
  have ha : Runs (seesWord .kwAsync) context c false c := by
    rw [runs_seesWord, hc.lparen]
    exact ⟨rfl, by rintro ⟨⟩, by rintro ⟨⟩⟩
  have hp : Runs judgeParenthesis context c.next .yes c.next.next := by
    rw [judgeParenthesis, runs_tokenKind_bind, hc.rparen]
    refine runs_next_bind.mpr (runs_tokenKind_bind.mpr ?_)
    rw [hc.arrow]
    rfl
  have hj : Runs judge context c .yes c.next.next := by
    refine runs_bind.mpr ⟨false, c, ha, ?_⟩
    rw [if_neg Bool.false_ne_true]
    refine runs_tokenKind_bind.mpr ?_
    rw [hc.lparen]
    exact runs_next_bind.mpr hp
  rw [show judge context c = _ from hj]

/-- An empty parameter list ends behind its parentheses. -/
theorem params_empty {inClass : Bool} {list : Node} (h : Runs (params g inClass) context c list c')
    (hr : c.next.token.kind = .punct .rparen) : c' = c.next.next := by
  simp only [params, thisParam?, commaList, manyUntil, runs_bind, runs_startOffset, runs_expect, runs_inBrackets,
    runs_finish, runs_pure, runs_eatWord, runs_read] at h
  obtain ⟨_, _, ⟨rfl, rfl⟩, _, _, ⟨-, rfl⟩, parts, c₂, ⟨first, c₃, ⟨_, _, ⟨rfl, rfl⟩, isThis, c₄, ht, hf⟩, others,
    c₅, ⟨_, _, ⟨rfl, rfl⟩, ho⟩, rfl, rfl⟩, _, _, ⟨-, rfl⟩, rfl, rfl⟩ := h
  rw [hr, if_neg (by rintro ⟨⟩)] at ht
  obtain ⟨rfl, rfl⟩ := ht
  obtain ⟨rfl, rfl⟩ := runs_pure.mp hf
  generalize Context.bound _ = n at ho
  cases n with
  | zero => cases ho
  | succ n =>
    rw [readUntil, runs_bind] at ho
    obtain ⟨isClose, c₆, hs, ho⟩ := ho
    obtain ⟨rfl, hc⟩ := runs_sees.mp hs
    rw [if_pos (hc.mpr hr)] at ho
    obtain ⟨rfl, rfl⟩ := runs_pure.mp ho
    rfl

theorem Term.ReadAsValue.arrowFunction (hva : t.ReadAsValue) (hv : t.Valid) (hs : Stops tail sign)
    (hsi : sign.endsValue) (h : Runs (arrowFunction (.level n) true) context c node c') (hc : c.AtEmptyParams)
    (hre : c.next.next.rest = ' ' :: (t.text ++ tail)) : node.value?.any (·.alike t.tree) := by
  simp only [Script.arrowFunction, arrowParams, typeParameters?, returnType?, arrowSign, runs_bind, runs_startOffset,
    runs_eatWord, runs_sees, runs_ite, runs_pure, runs_withReader, runs_flawIf, runs_onNewLine, runs_expect,
    runs_finish] at h
  obtain ⟨_, _, ⟨rfl, rfl⟩, isAsync, c₁, has, list, c₂, ⟨types, c₃, ⟨isLess, _, ⟨rfl, hl⟩, hty⟩, params, c₄,
    hp, _, _, rfl, rfl, rfl⟩, result, c₅, ⟨_, _, ⟨rfl, rfl⟩, isTyped, c₆, ht, hr⟩, _, _,
    ⟨_, _, ⟨rfl, rfl⟩, _, _, rfl, -, rfl⟩, ⟨isExpression, body⟩, c₇, hb, function, _, ⟨rfl, rfl⟩, h⟩ := h
  rw [hc.lparen, if_neg (by rintro ⟨⟩)] at has
  obtain ⟨rfl, rfl⟩ := has
  have hn : ¬ isLess = true := by
    intro hy
    cases hc.lparen.symm.trans (hl.mp hy)
  rw [if_neg hn] at hty
  obtain ⟨rfl, rfl⟩ := hty
  cases params_empty hp hc.rparen
  rw [runs_eat, Cursor.token_flag, hc.arrow, if_neg (by rintro ⟨⟩)] at ht
  obtain ⟨rfl, rfl⟩ := ht
  rw [if_neg Bool.false_ne_true] at hr
  obtain ⟨rfl, rfl⟩ := hr
  obtain ⟨_, _, -, h⟩ := h
  obtain ⟨rfl, rfl⟩ := h
  obtain ⟨rfl, node, rfl, ha, -⟩ := hva.arrowBody hv hs hsi hb (hv.opens.at_next_blank hre)
  rw [value?, getLast?_concat]
  exact ha

/-- A term behind an arrow is the whole value of the function. -/
theorem Term.Valid.value (hv : t.Valid) (ht : 1 ≤ t.tightness) (hs : Stops tail sign) (hsi : sign.endsValue)
    (h : Runs ((Grammar.level n).assignment allowReturn) context c node c')
    (hc : c.At ('(' :: ')' :: ' ' :: '=' :: '>' :: ' ' :: (t.text ++ tail))) :
    node.value?.any (·.alike t.tree) := by
  have hp : c.AtEmptyParams ∧ c.next.next.rest = ' ' :: (t.text ++ tail) := by
    have hr := (Cursor.before_next hc.rest stops_rparen.inked).at_of_ink rfl
    have ha := (Cursor.before_next hr.rest stops_arrow.inked).at_of_blank
    exact ⟨⟨hc.kind, hr.kind, ha.kind⟩, ha.rest⟩
  obtain _ | n := n
  · cases h
  replace h : Runs (Script.assignment (.level n) allowReturn) context c node c' := h
  rw [Script.assignment, runs_startOffset_bind, runs_read_bind] at h
  simp only [seesYield, arrowFunction?, runs_bind, runs_seesWord, runs_ite] at h
  obtain ⟨yields, c₁, ⟨isYield, _, ⟨rfl, hyi⟩, hy⟩, h⟩ := h
  have hn : ¬ isYield = true := by
    rw [hyi, hp.1.lparen]
    rintro ⟨⟩
  rw [if_neg hn] at hy
  obtain ⟨rfl, rfl⟩ := runs_pure.mp hy
  rw [if_neg Bool.false_ne_true] at h
  obtain ⟨found, c₂, ⟨verdict, _, hve, hf⟩, h⟩ := h
  obtain ⟨rfl, rfl⟩ := hve.unique (judgeArrow_emptyParams hp.1)
  simp only [runs_bind, runs_pure] at hf
  obtain ⟨function, _, hfu, rfl, rfl⟩ := hf
  obtain ⟨rfl, rfl⟩ := runs_pure.mp h
  exact (hv.reads.value ht).arrowFunction hv hs hsi hfu hp.1 hp.2

/-- An operand is part of what an access or a call makes of it. -/
theorem Heads.mem_nodes {operand inner : Node} (h : Heads operand node) (hi : inner ∈ operand.nodes)
    (hs : inner.shape ≠ .instantiation) : inner ∈ node.nodes := by
  cases h with
  | plain => exact nodes_subset (part_mem_nodes (.head _)) hi
  | apart =>
    unfold withTypeArguments
    split
    · rw [nodes_eq, mem_cons] at hi
      rcases hi with rfl | hi
      · exact absurd rfl hs
      · obtain ⟨part, hp, hi⟩ := mem_nodesOf_iff.mp hi
        exact nodes_subset (part_mem_nodes (mem_append_left _ hp)) hi
    · exact nodes_subset (part_mem_nodes (mem_append_left _ (.head _))) hi

/-- An operand stays a part of what is read, whatever accesses and calls follow it. -/
theorem mem_nodes_of_accesses {found : Chained} {c₁ : Cursor}
    (h : Runs (extendWith (accessStep g start true) n target) context c found c₁)
    (hc : Runs (if found.optional then finish start .chain [found.node] else pure found.node) context c₁ node c')
    (hs : target.node.shape ≠ .instantiation) : target.node ∈ node.nodes := by
  have hm : target.node ∈ found.node.nodes := by
    refine Runs.extendWith (fun extended _ => target.node ∈ extended.node.nodes) ?_ h (self_mem_nodes _)
    intro extended c step c' hm hst
    cases step with
    | none => exact hm
    | some further => exact (heads_accessStep hst).mem_nodes hm hs
  split at hc
  · obtain ⟨-, rfl⟩ := runs_finish.mp hc
    exact nodes_subset (part_mem_nodes (.head _)) hm
  · obtain ⟨-, rfl⟩ := runs_pure.mp hc
    exact hm

theorem exists_object_of_alike {span : Span} (h : node.alike (.mk shape span [object])) :
    ∃ span' object', node = .mk shape span' [object'] ∧ object'.alike object := by
  rcases node with ⟨shape', span', parts⟩
  rw [Node.alike, and_eq_true, beq_iff_eq] at h
  obtain ⟨rfl, hp⟩ := h
  rcases parts with _ | ⟨object', _ | ⟨other, more⟩⟩
  · cases hp
  · rw [alikeAll, and_eq_true] at hp
    exact ⟨span', object', rfl, hp.1⟩
  · rw [alikeAll, and_eq_true] at hp
    cases hp.2

/-- A call stays a part of what is read, whatever follows it. -/
theorem Term.Valid.exists_call (hv : t.Valid) (ht : 4 ≤ t.tightness) (hf : t.FitsIn context)
    (h : Runs (leftHandSide (.level n)) context c node c') (hc : c.At (t.text ++ '(' :: rest)) :
    ∃ span callee arguments, ∃ c₁ c₂ : Cursor, c₁.Before ('(' :: rest) ∧
      Runs (callArguments (.level n)) context c₁ arguments c₂ ∧
      callee.alike t.tree ∧ .mk (.call false) span [callee, arguments] ∈ node.nodes := by
  obtain ⟨n, start, target, found, c₁, c₂, hl, hb, ha, -, hcl⟩ :=
    hv.reads.operand ht hf stops_lparen.word stops_lparen.inked h hc
  obtain _ | n := n
  · cases hl
  rw [extendWith, runs_bind] at hl
  obtain ⟨step, c₃, hs, hl⟩ := hl
  obtain ⟨span, arguments, har, rfl⟩ := accessStep_call hs (hb.kind_of_stops stops_lparen)
  rw [withTypeArguments_of_alike ha (by omega)] at hl
  exact ⟨span, target.node, arguments, c₁, c₃, hb, har, ha, mem_nodes_of_accesses hl hcl (by rintro ⟨⟩)⟩

/-- A term in front of a call of a method is the whole receiver. -/
theorem Term.Valid.receiver {method : String} (hv : t.Valid) (ht : 4 ≤ t.tightness) (hf : t.FitsIn context)
    (hm : isIdentifier method) (h : Runs (leftHandSide (.level n)) context c node c')
    (hc : c.At (t.text ++ '.' :: (method.toList ++ '(' :: rest))) :
    node.holds (receiver? method) t.tree = true := by
  have hv' : (Term.member t method).Valid := ⟨hv, ht, hm⟩
  have hc' : c.At ((Term.member t method).text ++ '(' :: rest) := by simpa [Term.text] using hc
  obtain ⟨span, callee, arguments, c₁, c₂, -, -, ha, hme⟩ := hv'.exists_call (Nat.le_refl 4) hf h hc'
  obtain ⟨span', object, rfl, ho⟩ := exists_object_of_alike ha
  refine any_eq_true.mpr ⟨_, hme, ?_⟩
  simp [receiver?, show object.alike t.tree = true from ho]

/-- A call that is a term is read as such, whatever follows it. -/
theorem Term.Valid.called {arguments : Term} (hv : (Term.call t arguments).Valid) (hf : t.FitsIn context)
    (h : Runs (leftHandSide (.level n)) context c node c') (hc : c.At ((Term.call t arguments).text ++ rest)) :
    node.nodes.any (·.alike (Term.call t arguments).tree) := by
  rw [Term.text, append_assoc, cons_append, append_assoc] at hc
  obtain ⟨span, callee, list, c₁, c₂, hb, har, ha, hm⟩ := hv.1.exists_call hv.2.1 hf h hc
  obtain ⟨span', parts, c₃, rfl, hp, -⟩ := hv.2.2.reads.arguments.callArguments hv.2.2 har (hb.at_of_ink rfl)
  exact any_eq_true.mpr ⟨_, hm, alike_mk.trans (alikeAll_two ha (alike_mk.trans hp))⟩

end

end Polyview.Script
