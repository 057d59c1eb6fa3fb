import Mathlib.Data.List.Induction
import Polyview.Proofs.Script.Quotation
import Polyview.Unit.Extraction

/-! # Options that are literals

The options of a component are strings or template literals. Of a string the value is taken, of a template literal the
text between its backticks, as it is written. So an option is the text that its literal stands for exactly if the literal
is a string, or a template literal without escapes and carriage returns (`plainLiteral_iff`). If several options have the
same key, the last one counts (`componentOptions_eq`). -/

namespace Polyview

open List Script Text

variable {source : List Char} {node property decorator : Node} {properties : List Node}

/-! ### Literals -/

/-- The text between the backticks of a template literal with the given span. -/
def rawText (source : List Char) (span : Span) : List Char := ((span.chars source).drop 1).dropLast

/-- The text that a literal stands for. -/
def literalValue? (source : List Char) (node : Node) : Option String :=
  match node.unwrapParens with
  | .mk (.string text _) _ _ => some text
  | .mk .template span [] => (cooked? (rawText source span)).map String.ofList
  | _ => none

/-- A literal is written without escapes and carriage returns, if it is a template literal. -/
def PlainLiteral (source : List Char) (node : Node) : Prop :=
  ∀ span, node.unwrapParens = .mk .template span [] → '\\' ∉ rawText source span ∧ '\r' ∉ rawText source span

def takenText (source : List Char) (node : Node) : String :=
  match node.unwrapParens with
  | .mk (.string text _) _ _ => text
  | .mk .template span [] => String.ofList (rawText source span)
  | _ => ""

theorem literalText_eq (key : String) (h : (literalValue? source node).isSome) :
    literalText source key node = .ok (takenText source node) := by
  unfold literalValue? at h
  unfold literalText takenText
  split at h
  · next heq => rw [heq]
  · next heq => rw [heq]; rfl
  · cases h

/-- **What is taken of a literal** is what it stands for exactly if it is plain. -/
theorem plainLiteral_iff (h : (literalValue? source node).isSome) :
    literalValue? source node = some (takenText source node) ↔ PlainLiteral source node := by
  unfold literalValue? at h ⊢
  unfold takenText PlainLiteral
  split at h
  · next heq => simp [heq]
  · next span heq =>
    have hi : ∀ other : List Char, (cooked? (rawText source span)).map String.ofList = some (String.ofList other) ↔
        cooked? (rawText source span) = some other := by
      intro other
      cases cooked? (rawText source span) <;> simp [String.ofList_inj]
    simp [heq, hi, cooked?_eq_self_iff]
  · cases h

/-! ### Options -/

/-- The object that a class decorator is given. -/
def optionsOf? (decorator : Node) : Option (List Node) :=
  match decorator.part? with
  | some (.mk (.call _) _ (_ :: rest)) =>
    match (argumentsOf rest).head?.map Node.unwrapParens with
    | some (.mk .object _ properties) => some properties
    | _ => none
  | _ => none

/-- A property with a static key, which is a literal if the key is that of an option. -/
def LiteralOption (source : List Char) (property : Node) : Prop :=
  ∃ key value, optionEntry source property = .ok (key, value) ∧
    (key = "selector" ∨ key = "styles" → (literalValue? source value).isSome = true)

instance : Decidable (LiteralOption source property) :=
  match h : optionEntry source property with
  | .ok (key, value) =>
    decidable_of_iff (key = "selector" ∨ key = "styles" → (literalValue? source value).isSome = true)
      (by simp [LiteralOption, h])
  | .error _ => isFalse (by simp [LiteralOption, h])

def valueAt? (source : List Char) (key : String) (property : Node) : Option Node :=
  match optionEntry source property with
  | .ok (found, value) => if found = key then some value else none
  | .error _ => none

/-- The value of the last property with the given key. -/
def lastValue? (source : List Char) (key : String) (properties : List Node) : Option Node :=
  properties.reverse.findSome? (valueAt? source key)

theorem exists_of_optionsOf? (h : optionsOf? decorator = some properties) :
    ∃ optional span callee rest first others inside,
      decorator.part? = some (.mk (.call optional) span (callee :: rest)) ∧ argumentsOf rest = first :: others ∧
        first.unwrapParens = .mk .object inside properties := by
  unfold optionsOf? at h
  split at h
  · next rest hc =>
    split at h
    · next ho =>
      cases h
      obtain ⟨first, hf, hp⟩ := Option.map_eq_some_iff.mp ho
      obtain ⟨others, hr⟩ := head?_eq_some_iff.mp hf
      exact ⟨_, _, _, rest, first, others, _, hc, hr, hp⟩
    · cases h
  · cases h

theorem componentOptions_of_object (h : optionsOf? decorator = some properties) :
    componentOptions source decorator = properties.foldlM (addOption source) {} := by
  obtain ⟨optional, span, callee, rest, first, others, inside, hc, hr, hp⟩ := exists_of_optionsOf? h
  unfold componentOptions
  simp only [hc, hr, hp]

theorem lastValue?_concat (key : String) (properties : List Node) (property : Node) :
    lastValue? source key (properties ++ [property]) =
      (valueAt? source key property).or (lastValue? source key properties) := by
  rw [lastValue?, lastValue?, reverse_append, reverse_singleton, singleton_append, findSome?_cons]
  cases valueAt? source key property <;> rfl

theorem addOption_eq (options : ComponentOptions) (h : LiteralOption source property) :
    addOption source options property = .ok
      ⟨((valueAt? source "selector" property).map (takenText source)).or options.selector,
        ((valueAt? source "styles" property).map (takenText source)).getD options.styles⟩ := by
  obtain ⟨key, value, he, hl⟩ := h
  have hb : addOption source options property =
      if key == "selector" then
        (literalText source key value).bind fun text => .ok { options with selector := some text }
      else if key == "styles" then (literalText source key value).bind fun text => .ok { options with styles := text }
      else .ok options := by
    unfold addOption
    rw [he]
    rfl
  rw [hb]
  simp only [valueAt?, he]
  by_cases hs : key = "selector"
  · simp [hs, literalText_eq _ (hl (.inl hs)), Except.bind]
  · by_cases hst : key = "styles"
    · simp [hst, literalText_eq _ (hl (.inr hst)), Except.bind]
    · simp [hs, hst]

/-- **The last option of a key counts**, and what is taken of its literal. -/
theorem componentOptions_eq (ho : optionsOf? decorator = some properties)
    (h : ∀ property ∈ properties, LiteralOption source property) : componentOptions source decorator = .ok
      ⟨(lastValue? source "selector" properties).map (takenText source),
        ((lastValue? source "styles" properties).map (takenText source)).getD ""⟩ := by
  rw [componentOptions_of_object ho]
  clear ho
  induction properties using List.reverseRecOn with
  | nil => rfl
  | append_singleton properties property ih =>
    rw [foldlM_append, ih fun other hot => h other (mem_append_left _ hot)]
    have ha := fun options => addOption_eq options (h property (mem_append_right _ (.head _)))
    have hs : ∀ options, [property].foldlM (addOption source) options = addOption source options property :=
      fun options => by simp
    rw [lastValue?_concat, lastValue?_concat]
    refine (hs _).trans ((ha _).trans ?_)
    cases valueAt? source "selector" property <;> cases valueAt? source "styles" property <;> rfl

end Polyview
