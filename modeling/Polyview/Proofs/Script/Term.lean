import Polyview.Proofs.Script.Operand
import Polyview.Proofs.Script.Spelling

/-! # Terms

A term is an expression of names, accesses, calls, operators, assignments and parentheses. Its spelling has a blank around
each operator and behind each comma. A term is valid if its names are plain and its parts bind as tight as their places
in it ask for. -/

namespace Polyview.Script

open List Text

inductive Term
  | word (name : String)
  | member (object : Term) (name : String)
  | index (object key : Term)
  | invoke (callee : Term)
  /-- A call; the commas of the second term are between the arguments. -/
  | call (callee arguments : Term)
  | paren (inner : Term)
  | update (target : Term) (increment : Bool)
  | binary (op : String) (left right : Term)
  | assign (op : AssignOp) (target value : Term)
  | arrow (param : String) (value : Term)
  | sequence (first rest : Term)

/-- The spelling of a sign of assignment. -/
def AssignOp.text : AssignOp → List Char
  | .plain => ['=']
  | .binary symbol | .logical symbol => symbol.toList ++ ['=']

/-- The sign of a binary operator. The signs with angle brackets may start or end types and are left out. -/
def operator? (op : String) : Option Punct :=
  (punctTable.find? fun entry => entry.1 == op.toList && entry.2.endsOperand && (binaryOp? (.punct entry.2)).isSome).map
    Prod.snd

/-- The level of a sign among the binary operators; other signs have none. -/
def Punct.level (sign : Punct) : ℕ := ((binaryOp? (.punct sign)).map Prod.fst).getD 0

namespace Term

/-- The sign of an update. -/
def mark : Bool → List Char
  | true => ['+', '+']
  | false => ['-', '-']

def text : Term → List Char
  | word name => name.toList
  | member object name => object.text ++ '.' :: name.toList
  | index object key => object.text ++ '[' :: (key.text ++ [']'])
  | invoke callee => callee.text ++ ['(', ')']
  | call callee arguments => callee.text ++ '(' :: (arguments.text ++ [')'])
  | paren inner => '(' :: (inner.text ++ [')'])
  | update target increment => target.text ++ mark increment
  | binary op left right => left.text ++ ' ' :: (op.toList ++ ' ' :: right.text)
  | assign op target value => target.text ++ ' ' :: (op.text ++ ' ' :: value.text)
  | arrow param value => param.toList ++ ' ' :: '=' :: '>' :: ' ' :: value.text
  | sequence first rest => first.text ++ ',' :: ' ' :: rest.text

def shape : Term → Shape
  | word name => if name = "this" then .this else .reference name
  | member _ name => .member name false
  | index _ _ => .index false
  | invoke _ | call _ _ => .call false
  | paren _ => .paren
  | update _ increment => .update increment false
  | binary op _ _ => if op ∈ ["??", "||", "&&"] then .logical op else .binary op
  | assign op _ _ => .assign op
  | arrow _ _ => .arrow false true
  | sequence _ _ => .sequence

/-- The tree of expressions with commas between them. -/
def joined : List Node → Node
  | [node] => node
  | nodes => .mk .sequence default nodes

/-- The trees between the commas of a term. -/
def trees : Term → List Node
  | word name => [.mk (word name).shape default []]
  | member object name => [.mk (.member name false) default [joined object.trees]]
  | index object key => [.mk (.index false) default [joined object.trees, joined key.trees]]
  | invoke callee => [.mk (.call false) default [joined callee.trees, .mk .arguments default []]]
  | call callee arguments => [.mk (.call false) default [joined callee.trees, .mk .arguments default arguments.trees]]
  | paren inner => [.mk .paren default [joined inner.trees]]
  | update target increment => [.mk (.update increment false) default [joined target.trees]]
  | binary op left right => [.mk (binary op left right).shape default [joined left.trees, joined right.trees]]
  | assign op target value => [.mk (.assign op) default [joined target.trees, joined value.trees]]
  | arrow param value =>
    [.mk (.arrow false true) default
      [.mk .params default [.mk (.param false {}) default [.mk (.binding param) default []]], joined value.trees]]
  | sequence first rest => first.trees ++ rest.trees

def tree (t : Term) : Node := joined t.trees

abbrev tightness (t : Term) : ℕ := t.shape.tightness

/-- A name, or an access to a member of an object. -/
def isTarget : Term → Bool
  | word name => name != "this"
  | member _ _ | index _ _ => true
  | _ => false

/-- Behind a parenthesis, the term might as well be a parameter. -/
def opensBare : Term → Bool
  | word _ => true
  | assign .plain target _ => target.opensBare
  | sequence first _ => first.opensBare
  | _ => false

/-- A bracket stands in the term, outside of parentheses. -/
def indexed : Term → Bool
  | word _ | paren _ | arrow _ _ => false
  | index _ _ => true
  | member object _ => object.indexed
  | invoke callee | call callee _ => callee.indexed
  | update target _ => target.indexed
  | binary _ left right => left.indexed || right.indexed
  | assign _ target value => target.indexed || value.indexed
  | sequence first rest => first.indexed || rest.indexed

def Valid : Term → Prop
  | word name => isIdentifier name = true ∧ (name = "this" ∨ keywordOf? name.toList = none)
  | member object name => object.Valid ∧ 4 ≤ object.tightness ∧ isIdentifier name = true
  | index object key => object.Valid ∧ 4 ≤ object.tightness ∧ key.Valid
  | invoke callee => callee.Valid ∧ 4 ≤ callee.tightness
  | call callee arguments => callee.Valid ∧ 4 ≤ callee.tightness ∧ arguments.Valid
  | paren inner => inner.Valid ∧ inner.opensBare = false
  | update target _ => target.Valid ∧ target.isTarget = true
  | binary op left right => left.Valid ∧ (operator? op).isSome ∧ bindsBehind left.shape.level (symbolLevel op) = false ∧
      bindsBehind (symbolLevel op) right.shape.level = true ∧ right.Valid
  | assign op target value => target.Valid ∧ target.isTarget = true ∧ (op.text, .assign op) ∈ punctTable ∧
      1 ≤ value.tightness ∧ value.Valid
  | arrow param value => isIdentifier param = true ∧ keywordOf? param.toList = none ∧ 1 ≤ value.tightness ∧ value.Valid
  | sequence first rest => first.Valid ∧ 1 ≤ first.tightness ∧ rest.Valid

end Term

variable {allowReturn : Bool} {c c' : Cursor} {context : Context} {g : Grammar} {n start : ℕ} {name : String}
  {node object : Node} {rest tail : List Char} {sign : Punct} {t : Term} {target : Chained} {found : Option Chained}

/-! ### How terms start -/

/-- The cursor stands at a name, at `this`, or at a parenthesis that is not the one of parameters. -/
inductive Cursor.Plain (c : Cursor) : Prop
  | word (name : String) (kind : c.token.kind = .word name none)
  | this (kind : c.token.kind = .word "this" (some .kwThis))
  | paren (kind : c.token.kind = .punct .lparen)
      (judged : ∀ ⦃context verdict c'⦄, Runs judgeParenthesis context c.next verdict c' → verdict = .no)

theorem Term.Valid.wordKind_eq (h : (Term.word name).Valid) :
    wordKind name.toList false = .word name (if name = "this" then some .kwThis else none) := by
  rcases h.2 with rfl | hf
  · rfl
  · have hn : name ≠ "this" := by
      rintro rfl
      cases hf
    rw [wordKind, hf, if_neg hn, String.ofList_toList]

/-- Signs behind a name that may be those of parameters. -/
def Punct.followsParam : Punct → Bool
  | .colon | .question | .comma | .assign .plain | .rparen => true
  | _ => false

theorem judgeParenthesis_word {keyword : Option Keyword} {verdict : Verdict}
    (h : Runs judgeParenthesis context c verdict c') (hk : c.token.kind = .word name keyword)
    (hf : keyword = none ∨ keyword = some .kwThis) (hn : c.next.token.kind = .punct sign)
    (hs : sign.followsParam = false) : verdict = .no := by
  have hm : (modifierOf? .kwThis).isSome = false := rfl
  rw [judgeParenthesis, runs_tokenKind_bind, hk, runs_keyword?_bind, hk] at h
  rcases hf with rfl | rfl <;>
  · simp only [TokenKind.keyword?, hm, pure_bind, Bool.false_and, runs_bind, runs_nextIs, runs_ite, runs_seesWord, runs_pure,
      runs_next, runs_tokenKind] at h
    obtain ⟨_, _, ⟨rfl, -⟩, h⟩ := h
    rw [if_neg Bool.false_ne_true] at h
    obtain ⟨_, _, ⟨rfl, -⟩, h⟩ := h
    split at h
    · exact h.2
    · obtain ⟨_, _, rfl, _, _, ⟨rfl, rfl⟩, h⟩ := h
      rw [hn] at h
      cases sign with
      | assign op => cases op <;> first | exact (runs_pure.mp h).2 | cases hs
      | _ => first | exact (runs_pure.mp h).2 | cases hs

/-- How a text starts, whatever follows it: with a plain token, and behind a parenthesis with no parameters, unless it is
a bare name there. -/
structure Opens (bare : Bool) (text : List Char) : Prop where
  ink : ∃ first more, text = first :: more ∧ isInk first = true
  plain : ∀ ⦃rest : List Char⦄ ⦃c : Cursor⦄, EndsWord rest → c.At (text ++ rest) → c.Plain
  judged : bare = false → ∀ ⦃rest : List Char⦄ ⦃context : Context⦄ ⦃c : Cursor⦄ ⦃verdict : Verdict⦄ ⦃c' : Cursor⦄,
    c.At (text ++ rest) → Runs judgeParenthesis context c verdict c' → verdict = .no

section

variable {bare : Bool} {text : List Char} {o : Term}

theorem Opens.inked (h : Opens bare text) : Inked (text ++ rest) ∧ Inked (' ' :: (text ++ rest)) := by
  obtain ⟨first, more, rfl, hf⟩ := h.ink
  exact ⟨⟨first, _, starts_of_isInk hf (.inl rfl)⟩, first, _, starts_of_isInk hf (.inr rfl)⟩

theorem Opens.at_next (h : Opens bare text) (hr : c.rest = text ++ rest) : c.next.At (text ++ rest) := by
  have hb := Cursor.before_next hr h.inked.1
  obtain ⟨first, more, rfl, hf⟩ := h.ink
  exact hb.at_of_ink hf

theorem Opens.at_next_blank (h : Opens bare text) (hr : c.rest = ' ' :: (text ++ rest)) : c.next.At (text ++ rest) :=
  (Cursor.before_next hr h.inked.2).at_of_blank

theorem Opens.append (h : Opens bare text) (hs : ∀ rest, EndsWord (tail ++ rest)) : Opens bare (text ++ tail) where
  ink := by
    obtain ⟨first, more, rfl, hf⟩ := h.ink
    exact ⟨first, _, rfl, hf⟩
  plain rest c _ hc := by
    rw [append_assoc] at hc
    exact h.plain (hs rest) hc
  judged hb rest context c verdict c' hc := by
    rw [append_assoc] at hc
    exact h.judged hb hc

theorem Term.Valid.opens_word (h : (Term.word name).Valid) : Opens true name.toList where
  ink := by
    obtain ⟨⟨first, more, hch, hf⟩, -⟩ := chars_of_isIdentifier h.1
    exact ⟨first, more, hch, (char_of_isNameStart hf).2.1⟩
  plain rest c hr hc := by
    obtain ⟨hk, -⟩ := hc.word h.1 hr
    rw [h.wordKind_eq] at hk
    by_cases ht : name = "this"
    · subst ht
      exact .this hk
    · rw [if_neg ht] at hk
      exact .word name hk
  judged := nofun

/-- What follows a name tells that it is no parameter. -/
theorem Opens.extend (h : Opens o.opensBare o.text) (hv : o.Valid) (ht : 2 ≤ o.tightness)
    (hs : ∀ rest, Stops (tail ++ rest) sign) (hsi : sign.followsParam = false) : Opens false (o.text ++ tail) := by
  cases hb : o.opensBare with
  | false => exact (hb ▸ h).append fun rest => (hs rest).word
  | true =>
    obtain ⟨hi, hp, -⟩ := (hb ▸ h).append fun rest => (hs rest).word
    refine ⟨hi, hp, fun _ rest context c verdict c' hc hru => ?_⟩
    obtain ⟨name, rfl⟩ : ∃ name, o = .word name := by
      cases o with
      | word name => exact ⟨name, rfl⟩
      | sequence | assign => simp [Term.tightness, Term.shape, Shape.tightness] at ht
      | _ => cases hb
    rw [append_assoc, Term.text] at hc
    obtain ⟨hk, hr⟩ := hc.word hv.1 (hs rest).word
    rw [hv.wordKind_eq] at hk
    refine judgeParenthesis_word hru hk ?_ ((Cursor.before_next hr (hs rest).inked).kind_of_stops (hs rest)) hsi
    split
    · exact .inr rfl
    · exact .inl rfl

theorem judgeParenthesis_paren {verdict : Verdict} (h : Runs judgeParenthesis context c verdict c')
    (hk : c.token.kind = .punct .lparen) : verdict = .no := by
  rw [judgeParenthesis, runs_tokenKind_bind, hk, runs_keyword?_bind, hk] at h
  simp only [TokenKind.keyword?, pure_bind, Bool.false_and, runs_bind, runs_nextIs, runs_ite, runs_seesWord] at h
  obtain ⟨_, _, ⟨rfl, -⟩, h⟩ := h
  rw [if_neg Bool.false_ne_true] at h
  obtain ⟨isThis, _, ⟨rfl, ht⟩, h⟩ := h
  rw [hk] at ht
  obtain rfl : isThis = false := Bool.eq_false_iff.mpr fun hy => by cases ht.mp hy
  exact (runs_pure.mp h).2

end

theorem tight_word (name : String) : 4 ≤ (Term.word name).tightness := by
  rw [Term.tightness, Term.shape]
  split <;> exact Nat.le_refl 4

theorem tight_binary (op : String) (left right : Term) : 2 ≤ (Term.binary op left right).tightness := by
  rw [Term.tightness, Term.shape]
  split <;> exact Nat.le_refl 2

theorem tight_of_isTarget (h : t.isTarget) : 4 ≤ t.tightness := by
  cases t with
  | word name => exact tight_word name
  | member | index => exact Nat.le_refl 4
  | _ => cases h

theorem bindsBehind_iff {level inner : ℕ} :
    bindsBehind level inner ↔ level < inner ∨ level = 12 ∧ inner = 12 := by
  unfold bindsBehind
  split
  · simp_all
    omega
  · simp_all

theorem symbolLevel_bounds (op : String) : 1 ≤ symbolLevel op ∧ symbolLevel op ≤ 12 := by
  unfold symbolLevel
  split <;> decide

theorem tight_of_level {shape : Shape} (h : 1 ≤ shape.level) : 2 ≤ shape.tightness := by
  cases shape <;> simp_all [Shape.level, Shape.tightness]

theorem operators_fit : ∀ entry ∈ punctTable, (entry.2.endsOperand && (binaryOp? (.punct entry.2)).isSome) = true →
    entry.2.followsParam = false ∧ (binaryOp? (.punct entry.2)).any (fun op =>
      op.1 == symbolLevel op.2.2 && op.2.1 == decide (op.2.2 ∈ ["??", "||", "&&"]) && op.2.2.toList == entry.1) := by
  decide

/-- What is known of the sign of an operator. -/
theorem sign_of_operator? {op : String} (h : (operator? op).isSome) :
    ∃ sign logical, (op.toList, sign) ∈ punctTable ∧ sign.endsOperand ∧ sign.followsParam = false ∧
      binaryOp? (.punct sign) = some (symbolLevel op, logical, op) ∧ logical = decide (op ∈ ["??", "||", "&&"]) := by
  rw [operator?, Option.isSome_map] at h
  obtain ⟨⟨chars, sign⟩, hf⟩ := Option.isSome_iff_exists.mp h
  have hm := mem_of_find?_eq_some hf
  have ht := find?_some hf
  rw [Bool.and_eq_true, Bool.and_eq_true, beq_iff_eq] at ht
  obtain ⟨⟨rfl, he⟩, ho⟩ := ht
  obtain ⟨hp, ha⟩ := operators_fit _ hm (Bool.and_eq_true_iff.mpr ⟨he, ho⟩)
  obtain ⟨⟨level, logical, symbol⟩, hs, ha⟩ := (Option.any_eq_true _ _).mp ha
  simp only [Bool.and_eq_true, beq_iff_eq, String.toList_inj] at ha
  obtain ⟨⟨rfl, hl⟩, rfl⟩ := ha
  exact ⟨sign, logical, hm, he, hp, hs, hl⟩

theorem Term.Valid.tight_parts {op : String} {left right : Term} (h : (Term.binary op left right).Valid) :
    2 ≤ left.tightness ∧ 2 ≤ right.tightness := by
  obtain ⟨-, -, hl, hr, -⟩ := h
  have hb := symbolLevel_bounds op
  have hl := mt bindsBehind_iff.mpr (Bool.eq_false_iff.mp hl)
  have hr := bindsBehind_iff.mp hr
  exact ⟨tight_of_level (by omega), tight_of_level (by omega)⟩

theorem Term.Valid.opens (h : t.Valid) : Opens t.opensBare t.text := by
  induction t with
  | word name => exact h.opens_word
  | member object name ih => exact (ih h.1).extend h.1 (by have := h.2.1; omega) (fun _ => stops_dot h.2.2) rfl
  | index object key ih _ => exact (ih h.1).extend h.1 (by have := h.2.1; omega) (fun _ => stops_lbracket) rfl
  | invoke callee ih => exact (ih h.1).extend h.1 (by have := h.2; omega) (fun _ => stops_lparen) rfl
  | call callee arguments ih _ => exact (ih h.1).extend h.1 (by have := h.2.1; omega) (fun _ => stops_lparen) rfl
  | paren inner ih =>
    have hi := ih h.1
    refine ⟨⟨'(', _, rfl, rfl⟩, fun rest c _ hc => .paren hc.kind fun context verdict c' hru => ?_,
      fun _ rest context c verdict c' hc hru => judgeParenthesis_paren hru hc.kind⟩
    have hr : c.rest = inner.text ++ [')'] ++ rest := hc.rest
    rw [append_assoc] at hr
    exact hi.judged h.2 (hi.at_next hr) hru
  | update target increment ih =>
    have ht := tight_of_isTarget h.2
    cases increment with
    | true => exact (ih h.1).extend h.1 (by omega) (fun _ => stops_plusPlus) rfl
    | false => exact (ih h.1).extend h.1 (by omega) (fun _ => stops_minusMinus) rfl
  | binary op left right ih _ =>
    obtain ⟨sign, logical, hs, -, hp, -⟩ := sign_of_operator? h.2.1
    exact (ih h.1).extend h.1 h.tight_parts.1 (fun rest => by simpa using stops_sign hs) hp
  | assign op target value ih _ =>
    have ht := tight_of_isTarget h.2.1
    have hs : ∀ rest, Stops (' ' :: (op.text ++ ' ' :: value.text) ++ rest) (.assign op) := fun rest => by
      simpa using stops_sign h.2.2.1
    cases op with
    | plain => exact (ih h.1).append fun rest => (hs rest).word
    | _ => exact (ih h.1).extend h.1 (by omega) hs rfl
  | arrow param value ih =>
    have hw : (Term.word param).Valid := ⟨h.1, .inr h.2.1⟩
    exact hw.opens_word.extend (o := .word param) hw (Nat.le_trans (by decide) (tight_word param)) (fun _ => stops_arrow) rfl
  | sequence first rest ih _ => exact (ih h.1).append fun rest => stops_comma.word

end Polyview.Script
