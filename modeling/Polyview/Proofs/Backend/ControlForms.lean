import Polyview.Backend.Lit
import Polyview.Backend.ReactMarkup
import Polyview.Proofs.Pipeline.Outcome
import Polyview.Proofs.Script.TermReading
import Polyview.Proofs.Unit.Roles

/-! # Expressions of control forms

Markup that is part of a script holds control forms as expressions: a conditional with the condition for its test, and a
call of `map` on the list. The code of the condition and of the list is written without parentheses in front of the sign
or the call. So it is read as the test or as the receiver only if it binds tight enough. -/

namespace Polyview

open List Script Text

/-- The key of a repetition: that of the form itself, or else that of its markup. -/
def Template.key? (node : Template) : Option String :=
  node.expressionAttribute? "key" <|> node.callback?.bind fun callback => (splitKey callback.2).2

/-- How a target writes control forms into scripts. -/
structure ControlStyle where
  renderer : Component → Renderer Workspace
  /-- Adapts code of a component. -/
  adapt : Component → SnippetKind → String → Except Error String
  /-- The text in front of code in markup. -/
  opening : String
  /-- Whether repetitions with a key are calls of `map` as well. -/
  mapsKeyed : Bool

def React.controlStyle : ControlStyle := ⟨React.renderer, React.adapt, "\x7b", true⟩

def Lit.controlStyle : ControlStyle := ⟨Lit.renderer, Lit.adapt, "$\x7b", false⟩

/-- A style writes conditions and lists without parentheses. -/
structure ControlStyle.Bare (style : ControlStyle) : Prop where
  script : ∀ c code, (style.renderer c).script code = lift (style.adapt c .expression code)
  conditional : ∀ c parts text, Yields ((style.renderer c).showIf parts) text →
    ∃ shown hidden, text = style.opening ++ parts.condition ++ " ? " ++ shown ++ " : " ++ hidden ++ "\x7d"
  repetition : ∀ c parts text, Yields ((style.renderer c).forEach parts) text →
    (style.mapsKeyed = false → parts.key = none) →
    ∃ callback, text = style.opening ++ parts.list ++ ".map(" ++ callback ++ ")\x7d"

variable {c : Component} {node : Template} {text : String} {style : ControlStyle}

/-! ### What is written -/

theorem React.bare_controlStyle : React.controlStyle.Bare where
  script _ _ := rfl
  conditional c parts text h := by
    obtain ⟨w, w', hr⟩ := h
    cases hr
    have hy : " ? (" = " ? " ++ "(" := rfl
    have hn : ") : " = ")" ++ " : " := rfl
    refine ⟨"(" ++ inFragment (String.join parts.body) ++ ")",
      parts.fallback.elim "null" fun markup => "(" ++ inFragment markup ++ ")", ?_⟩
    cases hf : parts.fallback <;>
      simp only [renderShow, braces, controlStyle, hf, hy, hn, String.append_assoc, Option.elim]
  repetition c parts text h _ := by
    obtain ⟨w, w', hr⟩ := h
    obtain ⟨_, _, -, hr⟩ := run_bind_eq_ok hr
    cases hr
    have hm : ".map((" = ".map(" ++ "(" := rfl
    have hc : "</Fragment>))" = "</Fragment>)" ++ ")" := rfl
    refine ⟨"(" ++ parts.item ++ ", " ++ parts.index.getD "__index" ++ ") => (<Fragment key=" ++
      braces (parts.key.getD (parts.index.getD "__index")) ++ ">" ++ parts.body ++ "</Fragment>)", ?_⟩
    simp only [renderEach, braces, controlStyle, hm, hc, String.append_assoc]
    rfl

theorem Lit.bare_controlStyle : Lit.controlStyle.Bare where
  script _ _ := rfl
  conditional c parts text h := by
    obtain ⟨w, w', hr⟩ := h
    change (renderShow parts).run w = _ at hr
    unfold renderShow at hr
    extract_lets write at hr
    obtain ⟨hidden, w, hr⟩ : ∃ hidden w, (write hidden).run w = (.ok text, w') := by
      split at hr
      · exact ⟨_, w, hr⟩
      · obtain ⟨_, w, -, hr⟩ := run_bind_eq_ok hr
        exact ⟨_, w, hr⟩
    cases hr
    refine ⟨htmlLiteral (String.join parts.body), hidden, ?_⟩
    simp only [substitution, braces, controlStyle, String.append_assoc]
    rfl
  repetition c parts text h hk := by
    obtain ⟨w, w', hr⟩ := h
    change (renderEach parts).run w = _ at hr
    unfold renderEach at hr
    extract_lets params at hr
    rw [hk rfl] at hr
    cases hr
    refine ⟨params ++ " => " ++ htmlLiteral parts.body, ?_⟩
    simp only [substitution, braces, controlStyle, String.append_assoc]
    rfl

/-- A conditional holds the code of its condition in front of the sign. -/
theorem ControlStyle.Bare.exists_condition (hst : style.Bare) (h : Yields (renderTemplate (style.renderer c) node) text)
    (hta : node.tag? = some "Show") : ∃ code condition shown hidden, node.expressionAttribute? "when" = some code ∧
      style.adapt c .expression code = .ok condition ∧
      text = style.opening ++ condition ++ " ? " ++ shown ++ " : " ++ hidden ++ "\x7d" := by
  obtain ⟨shape, hs, w, w', hr⟩ := h.exists_shape
  rw [shapeOf_show hta, showShape] at hs
  split at hs
  · cases hs
  · next code hc =>
    cases hs
    rw [renderShape, hst.script] at hr
    obtain ⟨condition, _, hco, hr⟩ := run_bind_eq_ok hr
    obtain ⟨body, _, -, hr⟩ := run_bind_eq_ok hr
    obtain ⟨fallback, _, -, hr⟩ := run_bind_eq_ok hr
    obtain ⟨shown, hidden, ht⟩ := hst.conditional c _ text ⟨_, _, hr⟩
    exact ⟨code, condition, shown, hidden, hc, run_lift_eq_ok hco, ht⟩

/-- A repetition holds the code of its list in front of the call. -/
theorem ControlStyle.Bare.exists_list (hs : style.Bare) (h : Yields (renderTemplate (style.renderer c) node) text)
    (hta : node.tag? = some "For") (hk : style.mapsKeyed = false → node.key? = none) :
    ∃ code list callback, node.expressionAttribute? "each" = some code ∧ style.adapt c .expression code = .ok list ∧
      text = style.opening ++ list ++ ".map(" ++ callback ++ ")\x7d" := by
  obtain ⟨shape, hsh, w, w', hr⟩ := h.exists_shape
  rw [shapeOf_for hta] at hsh
  obtain ⟨code, params, body, item, rest, hc, hcb, rfl, -, rfl⟩ := eachShape_eq_ok hsh
  rw [renderShape, hs.script] at hr
  obtain ⟨list, _, hl, hr⟩ := run_bind_eq_ok hr
  obtain ⟨key, _, hrk, hr⟩ := run_bind_eq_ok hr
  obtain ⟨markup, _, -, hr⟩ := run_bind_eq_ok hr
  have hn : style.mapsKeyed = false → key = none := by
    intro hm
    have hk := hk hm
    rw [Template.key?, hcb] at hk
    rw [show (node.expressionAttribute? "key" <|> (splitKey body).2) = none from hk] at hrk
    cases hrk
    rfl
  obtain ⟨callback, ht⟩ := hs.repetition c _ text ⟨_, _, hr⟩ hn
  exact ⟨code, list, callback, hc, run_lift_eq_ok hl, ht⟩

/-! ### How it is read -/

section

variable {t : Term} {n : ℕ}

theorem reads_condition {condition shown hidden : String} {allowReturn : Bool} (hv : t.Valid) (ht : 2 ≤ t.tightness)
    (hte : t.text = condition.toList) :
    AlwaysReads ((Grammar.level n).assignment allowReturn) (condition ++ " ? " ++ shown ++ " : " ++ hidden) t.indexed
      fun read => read.test?.any (·.alike t.tree) := by
  intro context cursor read cursor' behind hf h ha
  have hs : " ? ".toList = [' ', '?', ' '] := rfl
  simp only [String.toList_append, ← hte, hs, append_assoc, cons_append, nil_append] at ha
  exact hv.test ht hf h ha

theorem reads_list {list callback : String} (hv : t.Valid) (ht : 4 ≤ t.tightness) (hte : t.text = list.toList) :
    AlwaysReads (Grammar.level n).leftHandSide (list ++ ".map(" ++ callback ++ ")") t.indexed
      fun read => read.holds (Node.receiver? "map") t.tree := by
  intro context cursor read cursor' behind hf h ha
  have hc : ".map(".toList = '.' :: ("map".toList ++ ['(']) := rfl
  simp only [String.toList_append, ← hte, hc, append_assoc, cons_append, nil_append] at ha
  cases n with
  | zero => cases h
  | succ n => exact hv.receiver ht hf rfl h ha

end

theorem ControlStyle.bare_of_mem (h : style ∈ [React.controlStyle, Lit.controlStyle]) : style.Bare := by
  rcases mem_pair.mp h with rfl | rfl
  · exact React.bare_controlStyle
  · exact Lit.bare_controlStyle

/-- **Control forms and their expressions:** the condition of a conditional and the list of a repetition stand bare in
front of the sign and of the call. In a script that holds the form they are the whole test and the whole receiver only if
they bind tight enough: a condition has no operator that binds looser than binary ones, and a list has no operators at
all. Terms that bind as tight are the whole test and the whole receiver wherever the form is read. -/
theorem control_form_operands_tight (hstyle : style ∈ [React.controlStyle, Lit.controlStyle])
    (h : Yields (renderTemplate (style.renderer c) node) text) :
    (node.tag? = some "Show" → ∃ code condition shown hidden, node.expressionAttribute? "when" = some code ∧
        style.adapt c .expression code = .ok condition ∧
        text = style.opening ++ condition ++ " ? " ++ shown ++ " : " ++ hidden ++ "\x7d" ∧
        (∀ operand, expression? condition = some operand → WholeIn text Node.test? operand →
          2 ≤ operand.shape.tightness) ∧
        ∀ t : Term, t.Valid → 2 ≤ t.tightness → t.text = condition.toList → ∀ n allowReturn,
          AlwaysReads ((Grammar.level n).assignment allowReturn) (condition ++ " ? " ++ shown ++ " : " ++ hidden)
            t.indexed fun read => read.test?.any (·.alike t.tree)) ∧
    (node.tag? = some "For" → (style.mapsKeyed = false → node.key? = none) →
      ∃ code list callback, node.expressionAttribute? "each" = some code ∧ style.adapt c .expression code = .ok list ∧
        text = style.opening ++ list ++ ".map(" ++ callback ++ ")\x7d" ∧
        (∀ operand, expression? list = some operand → WholeIn text (Node.receiver? "map") operand →
          4 ≤ operand.shape.tightness) ∧
        ∀ t : Term, t.Valid → 4 ≤ t.tightness → t.text = list.toList → ∀ n,
          AlwaysReads (Grammar.level n).leftHandSide (list ++ ".map(" ++ callback ++ ")") t.indexed
            fun read => read.holds (Node.receiver? "map") t.tree) := by
  have hb := ControlStyle.bare_of_mem hstyle
  constructor
  · intro hta
    obtain ⟨code, condition, shown, hidden, hc, hco, hte⟩ := hb.exists_condition h hta
    exact ⟨code, condition, shown, hidden, hc, hco, hte, fun operand _ hw => hw.tight_test,
      fun t hv ht hs n allowReturn => reads_condition hv ht hs⟩
  · intro hta hk
    obtain ⟨code, list, callback, hc, hl, hte⟩ := hb.exists_list h hta hk
    exact ⟨code, list, callback, hc, hl, hte, fun operand _ hw => hw.tight_receiver,
      fun t hv ht hs n => reads_list hv ht hs⟩

/-! ### A roster -/

/-- A component with two flags and a list. -/
def roster : Component :=
  { emptyComponent "Roster" with props := [{ name := "items" }, { name := "open" }, { name := "ready" }] }

/-- A text that is shown under a condition. -/
def showWhen (code : String) : Template := .element "Show" [.mk "when" (.expression code)] [.text "Yes"]

/-- An entry for each item of a list. -/
def repeatFor (code : String) : Template :=
  .element "For" [.mk "each" (.expression code)] [.callback "" ["item"] (.element "li" [] [.expression "item"])]

theorem yields_of_any {r : Renderer Workspace}
    (h : ((renderTemplate r node).run {}).1.toOption.any (· == text)) : Yields (renderTemplate r node) text := by
  obtain ⟨found, hf, ht⟩ := exists_of_any h
  rw [← beq_iff_eq.mp ht]
  exact ⟨{}, _, Prod.ext hf rfl⟩

/-- A condition with a call and an operator: it is the whole test. -/
def bothReady : Term := .binary "&&" (.call (.member (.word "items") "includes") (.word "open")) (.word "ready")

/-- An operator that binds tighter than the conditional does not end the test. -/
theorem control_form_operands_tight_both : ∃ text operand shown hidden,
      Yields (renderTemplate (React.renderer roster) (showWhen "this.items.includes(this.open) && this.ready")) text ∧
      expression? "items.includes(open) && ready" = some operand ∧ WholeIn text Node.test? operand ∧
      2 ≤ operand.shape.tightness ∧
      text = "\x7b" ++ "items.includes(open) && ready" ++ " ? " ++ shown ++ " : " ++ hidden ++ "\x7d" ∧
      ∀ n allowReturn, AlwaysReads ((Grammar.level n).assignment allowReturn)
        ("items.includes(open) && ready" ++ " ? " ++ shown ++ " : " ++ hidden) false
          fun read => read.test?.any (·.alike bothReady.tree) := by
  obtain ⟨ht, ha, ho⟩ : ((renderTemplate (React.renderer roster)
        (showWhen "this.items.includes(this.open) && this.ready")).run {}).1.toOption.any
          (· == "\x7bitems.includes(open) && ready ? (<>Yes</>) : null\x7d") = true ∧
      (React.adapt roster .expression "this.items.includes(this.open) && this.ready").toOption.any
        (· == "items.includes(open) && ready") = true ∧
      (expression? "items.includes(open) && ready").any (fun operand =>
        (parse? true ("<b>".toList ++ "\x7bitems.includes(open) && ready ? (<>Yes</>) : null\x7d".toList ++
          "</b>;".toList)).any fun tree => tree.root.holds Node.test? operand) = true := by decide +kernel
  replace ht := yields_of_any ht
  obtain ⟨operand, ho, hh⟩ := (Option.any_eq_true _ _).mp ho
  obtain ⟨tree, htr, hh⟩ := (Option.any_eq_true _ _).mp hh
  have hw : WholeIn "\x7bitems.includes(open) && ready ? (<>Yes</>) : null\x7d" Node.test? operand :=
    ⟨"<b>".toList, "</b>;".toList, tree, htr, hh⟩
  have hv : bothReady.Valid := by
    simp only [bothReady, Term.Valid]
    decide +kernel
  obtain ⟨code, condition, shown, hidden, hco, hc, hs, hti, hr⟩ :=
    (control_form_operands_tight (show React.controlStyle ∈ _ from .head _) ht).1 rfl
  obtain rfl : "this.items.includes(this.open) && this.ready" = code := Option.some.inj hco
  obtain rfl : condition = "items.includes(open) && ready" := eq_of_any ha hc
  exact ⟨_, operand, shown, hidden, ht, ho, hw, hti operand ho hw, hs, hr _ hv (by decide) rfl⟩

/-- The text of a repetition over a list with a default. -/
def defaultListText : String :=
  "\x7bitems ?? [].map((item, __index) => (<Fragment key=\x7b__index\x7d><li>\x7bitem\x7d</li></Fragment>))\x7d"

/-- A default for a list is separated from the list: the call is one on the default only. -/
theorem default_list_separated :
    ∃ operand tree, Yields (renderTemplate (React.renderer roster) (repeatFor "this.items ?? []")) defaultListText ∧
      (React.adapt roster .expression "this.items ?? []").toOption = some "items ?? []" ∧
      expression? "items ?? []" = some operand ∧ operand.shape = .logical "??" ∧
      ¬ WholeIn defaultListText (Node.receiver? "map") operand ∧
      parse? true ("<ul>".toList ++ defaultListText.toList ++ "</ul>;".toList) = some tree ∧
      (tree.root.nodes.filterMap (Node.receiver? "map")).map Node.shape = [.array] := by
  obtain ⟨hte, ha, ho, ht⟩ :
      ((renderTemplate (React.renderer roster) (repeatFor "this.items ?? []")).run {}).1.toOption.any
        (· == defaultListText) = true ∧
      (React.adapt roster .expression "this.items ?? []").toOption = some "items ?? []" ∧
      (expression? "items ?? []").any (fun operand => operand.shape == .logical "??") = true ∧
      (parse? true ("<ul>".toList ++ defaultListText.toList ++ "</ul>;".toList)).any (fun tree =>
        (tree.root.nodes.filterMap (Node.receiver? "map")).map Node.shape == [.array]) = true := by decide +kernel
  obtain ⟨operand, ho, hs⟩ := (Option.any_eq_true _ _).mp ho
  obtain ⟨tree, ht, hr⟩ := (Option.any_eq_true _ _).mp ht
  refine ⟨operand, tree, yields_of_any hte, ha, ho, beq_iff_eq.mp hs, fun hw => ?_, ht, beq_iff_eq.mp hr⟩
  have hti := hw.tight_receiver
  rw [beq_iff_eq.mp hs] at hti
  exact absurd hti (by decide)

end Polyview
