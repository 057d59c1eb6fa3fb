import Polyview.Backend.React
import Polyview.Backend.Vue
import Polyview.Proofs.Pipeline.Outcome
import Polyview.Proofs.Script.TermReading
import Polyview.Proofs.Unit.Roles

/-! # Computed values as arrow functions

A computed value becomes a call with an arrow function for its first argument. The code of the value stands bare behind
the arrow. A brace starts a block there and a comma ends the argument, so not every expression is the value of the
function. -/

namespace Polyview

open List Script Text

/-- How a target writes computed values. -/
structure ComputedStyle where
  hooks : Hooks
  /-- Adapts code of a component. -/
  adapt : Component → SnippetKind → String → Except Error String
  /-- The function that is called. -/
  function : String
  /-- What follows the arrow function in the call. -/
  rest : Component → ComputedField → Except Error String

def React.computedStyle : ComputedStyle where
  hooks := React.hooks
  adapt := React.adapt
  function := "useMemo"
  rest c m := (React.dependencyList c m.name .expression m.expression).map fun deps => ", [" ++ deps ++ "]"

def Vue.computedStyle : ComputedStyle where
  hooks := Vue.hooks
  adapt := Vue.adapt
  function := "computed"
  rest _ _ := .ok ""

def ComputedStyle.call (style : ComputedStyle) (m : ComputedField) (value rest : String) : String :=
  style.function ++ typeArgument m.returnType ++ "(() => " ++ value ++ rest ++ ")"

/-- A target writes a computed value with its code bare behind the arrow. -/
def ComputedStyle.Writes (style : ComputedStyle) (c : Component) (m : ComputedField) (emitted : Emitted ComputedField) :
    Prop :=
  ∃ value rest, style.adapt c .expression m.expression = .ok value ∧ style.rest c m = .ok rest ∧
    emitted.code = withComments m.comments ("const " ++ m.name ++ " = " ++ style.call m value rest ++ ";")

variable {c : Component} {d : Draft} {m : ComputedField} {emitted : Emitted ComputedField} {style : ComputedStyle}

/-! ### What is written -/

theorem React.writes_of_turns (h : Turns (some React.computedHook) c m emitted) :
    React.computedStyle.Writes c m emitted := by
  obtain ⟨artifact, ⟨w, w', hr⟩, rfl⟩ := exists_artifact_of_turns h
  unfold computedHook at hr
  obtain ⟨_, _, -, hr⟩ := run_bind_eq_ok hr
  obtain ⟨deps, _, hd, hr⟩ := run_bind_eq_ok hr
  obtain ⟨value, _, hv, hr⟩ := run_bind_eq_ok hr
  cases hr
  have hre : computedStyle.rest c m = .ok (", [" ++ deps ++ "]") :=
    congrArg (Except.map fun deps => ", [" ++ deps ++ "]") (run_lift_eq_ok hd)
  have hc : " = useMemo" = " = " ++ "useMemo" := rfl
  have hcl : "]);" = "]" ++ (")" ++ ";") := rfl
  refine ⟨value, _, run_lift_eq_ok hv, hre, ?_⟩
  simp only [Emitted.code, ComputedStyle.call, computedStyle, hc, hcl, String.append_assoc]

theorem Vue.writes_of_turns (h : Turns (some Vue.computedHook) c m emitted) :
    Vue.computedStyle.Writes c m emitted := by
  obtain ⟨artifact, ⟨w, w', hr⟩, rfl⟩ := exists_artifact_of_turns h
  unfold computedHook at hr
  obtain ⟨_, _, -, hr⟩ := run_bind_eq_ok hr
  obtain ⟨value, _, hv, hr⟩ := run_bind_eq_ok hr
  cases hr
  have hc : " = computed" = " = " ++ "computed" := rfl
  have hcl : ");" = ")" ++ ";" := rfl
  refine ⟨value, "", run_lift_eq_ok hv, rfl, ?_⟩
  simp only [Emitted.code, ComputedStyle.call, computedStyle, hc, hcl, String.append_assoc, String.empty_append]

/-- Every computed value of a draft is written with its code bare behind the arrow. -/
theorem ComputedStyle.writes_of_run (hs : style ∈ [React.computedStyle, Vue.computedStyle])
    (hr : style.hooks.run c = .ok d) : List.Forall₂ (style.Writes c) c.computed d.computed := by
  rcases mem_pair.mp hs with rfl | rfl
  · exact (drafts_of_run rfl hr).computed.imp fun _ _ => React.writes_of_turns
  · exact (drafts_of_run rfl hr).computed.imp fun _ _ => Vue.writes_of_turns

/-! ### How it is read -/

/-- The code of a value is followed by a sign that is no part of it. -/
theorem ComputedStyle.stops_of_rest (hs : style ∈ [React.computedStyle, Vue.computedStyle]) {rest : String}
    (hr : style.rest c m = .ok rest) :
    ∃ sign, sign.endsValue ∧ ∀ behind, Stops ((rest ++ ")").toList ++ behind) sign := by
  rcases mem_pair.mp hs with rfl | rfl
  · refine ⟨.comma, rfl, fun behind => ?_⟩
    have hc : ", [".toList = [',', ' ', '['] := rfl
    obtain ⟨deps, -, rfl⟩ := map_eq_ok.mp hr
    simp only [String.toList_append, hc, append_assoc, cons_append]
    exact stops_comma
  · cases hr
    exact ⟨.rparen, rfl, fun behind => stops_rparen⟩

/-- A term behind the arrow is the value of the function. -/
theorem ComputedStyle.reads_value (hst : style ∈ [React.computedStyle, Vue.computedStyle]) {value rest : String}
    (hr : style.rest c m = .ok rest) {t : Term} (hv : t.Valid) (ht : 1 ≤ t.tightness) (hte : t.text = value.toList)
    {n : ℕ} {allowReturn : Bool} :
    AlwaysReads ((Grammar.level n).assignment allowReturn) ("() => " ++ value ++ rest ++ ")") false
      fun read => read.value?.any (·.alike t.tree) := by
  intro context cursor read cursor' behind _ h hat
  obtain ⟨sign, hsi, hs⟩ := stops_of_rest hst hr
  have ha : "() => ".toList = ['(', ')', ' ', '=', '>', ' '] := rfl
  rw [String.append_assoc, String.toList_append, String.toList_append, ← hte, ha, append_assoc, append_assoc] at hat
  exact hv.value ht (hs behind) hsi h hat

theorem ne_sequence_of_tight {shape : Shape} (h : 1 ≤ shape.tightness) : shape ≠ .sequence := by
  rintro rfl
  exact absurd h (by decide)

/-- **Computed values and their expressions:** the code of the value stands bare behind the arrow of the function that
computes it. In a script that holds the call it is the whole value of the function only if it is no expression with
commas and does not start with the brace of an object. A term without commas is the whole value wherever the function is
read. -/
theorem computed_value_fits (hstyle : style ∈ [React.computedStyle, Vue.computedStyle])
    (hrun : style.hooks.run c = .ok d) :
    List.Forall₂ (fun m emitted =>
      ∃ value rest, style.adapt c .expression m.expression = .ok value ∧ style.rest c m = .ok rest ∧
        emitted.code = withComments m.comments ("const " ++ m.name ++ " = " ++ style.call m value rest ++ ";") ∧
        (∀ operand, expression? value = some operand → WholeIn emitted.code Node.value? operand →
          operand.shape ≠ .sequence ∧ operand.leadsWithBrace = false) ∧
        ∀ t : Term, t.Valid → 1 ≤ t.tightness → t.text = value.toList → ∀ n allowReturn,
          AlwaysReads ((Grammar.level n).assignment allowReturn) ("() => " ++ value ++ rest ++ ")") false
            fun read => read.value?.any (·.alike t.tree)) c.computed d.computed := by
  refine (ComputedStyle.writes_of_run hstyle hrun).imp ?_
  rintro m emitted ⟨value, rest, hva, hr, hc⟩
  refine ⟨value, rest, hva, hr, hc, fun operand _ hw => ?_,
    fun t hv ht hs n allowReturn => ComputedStyle.reads_value hstyle hr hv ht hs⟩
  exact ⟨ne_sequence_of_tight hw.fitsArrow.tight, hw.fitsArrow.brace⟩

/-! ### Points -/

/-- A point with a value that is computed by the given code. -/
def pointWith (code : String) : Component :=
  { emptyComponent "Point" with
    state := [{ name := "x", initializer := some "1" }]
    computed := [{ name := "value", expression := code }] }

/-- The numbers of arguments of the calls in a tree. -/
def Script.Node.argumentCounts (root : Node) : List Nat :=
  root.nodes.filterMap fun
    | .mk (.call _) _ (_ :: rest) => some (argumentsOf rest).length
    | _ => none

/-- An index and a product. -/
def scaledAt : Term := .binary "*" (.index (.word "x") (.word "x")) (.word "x")

/-- A computed value with an operator is the whole value of the function. -/
theorem computed_value_fits_scaled : ∃ d operand, React.hooks.run (pointWith "this.x[this.x] * this.x") = .ok d ∧
      d.computed.map Emitted.code = ["const value = useMemo(() => x[x] * x, [x]);"] ∧
      expression? "x[x] * x" = some operand ∧
      WholeIn "const value = useMemo(() => x[x] * x, [x]);" Node.value? operand ∧
      (operand.shape ≠ .sequence ∧ operand.leadsWithBrace = false) ∧
      ∀ n allowReturn, AlwaysReads ((Grammar.level n).assignment allowReturn)
        ("() => " ++ "x[x] * x" ++ ", [x]" ++ ")") false fun read => read.value?.any (·.alike scaledAt.tree) := by
  obtain ⟨hr, ha, hde, ho⟩ : (React.hooks.run (pointWith "this.x[this.x] * this.x")).toOption.any
        (fun d => d.computed.map Emitted.code == ["const value = useMemo(() => x[x] * x, [x]);"]) = true ∧
      (React.adapt (pointWith "this.x[this.x] * this.x") .expression "this.x[this.x] * this.x").toOption.any
        (· == "x[x] * x") = true ∧
      (React.dependencyList (pointWith "this.x[this.x] * this.x") "value" .expression
        "this.x[this.x] * this.x").toOption.any (· == "x") = true ∧
      (expression? "x[x] * x").any (fun operand =>
        (parse? true ([] ++ "const value = useMemo(() => x[x] * x, [x]);".toList ++ [])).any fun tree =>
          tree.root.holds Node.value? operand) = true := by decide +kernel
  obtain ⟨d, hr, hc⟩ := exists_of_any hr
  obtain ⟨operand, ho, hh⟩ := (Option.any_eq_true _ _).mp ho
  obtain ⟨tree, ht, hh⟩ := (Option.any_eq_true _ _).mp hh
  have hw : WholeIn "const value = useMemo(() => x[x] * x, [x]);" Node.value? operand := ⟨[], [], tree, ht, hh⟩
  have hv : scaledAt.Valid := by
    simp only [scaledAt, Term.Valid]
    decide +kernel
  obtain ⟨emitted, _, ⟨value, rest, hva, hrs, -, hf, hre⟩, -, hd⟩ := forall₂_cons_left_iff.mp
    (computed_value_fits (show React.computedStyle ∈ _ from .head _) hr)
  obtain rfl : value = "x[x] * x" := eq_of_any ha hva
  obtain ⟨deps, hfo, rfl⟩ := map_eq_ok.mp hrs
  obtain rfl : deps = "x" := eq_of_any hde hfo
  rw [beq_iff_eq] at hc
  rw [hd] at hc
  rw [(List.cons.inj hc).1] at hf
  exact ⟨d, operand, hr, hd ▸ hc, ho, hw, hf operand ho hw, hre _ hv (by decide) rfl⟩

/-- The brace of an object starts a block, and a comma starts another argument. -/
theorem object_value_lost :
    (React.hooks.run (pointWith "{ x: this.x }")).toOption.map (fun d => d.computed.map Emitted.code) =
        some ["const value = useMemo(() => { x: x }, [x]);"] ∧
      (Vue.hooks.run (pointWith "this.x, 2")).toOption.map (fun d => d.computed.map Emitted.code) =
        some ["const value = computed(() => x.value, 2);"] ∧
      (∀ operand, expression? "{ x: x }" = some operand →
        ¬ WholeIn "const value = useMemo(() => { x: x }, [x]);" Node.value? operand) ∧
      (∀ operand, expression? "x.value, 2" = some operand →
        ¬ WholeIn "const value = computed(() => x.value, 2);" Node.value? operand) ∧
      (parse? true "const value = useMemo(() => { x: x }, [x]);".toList).map
        (fun tree => (tree.root.nodes.filterMap Node.value?).length) = some 0 ∧
      (parse? true "const value = computed(() => x.value, 2);".toList).map
        (fun tree => tree.root.argumentCounts) = some [2] := by
  obtain ⟨hob, hs, hb, hc, hbl, ha⟩ :
      (React.hooks.run (pointWith "{ x: this.x }")).toOption.map (fun d => d.computed.map Emitted.code) =
          some ["const value = useMemo(() => { x: x }, [x]);"] ∧
        (Vue.hooks.run (pointWith "this.x, 2")).toOption.map (fun d => d.computed.map Emitted.code) =
          some ["const value = computed(() => x.value, 2);"] ∧
        (expression? "{ x: x }").any (fun operand => operand.leadsWithBrace) = true ∧
        (expression? "x.value, 2").any (fun operand => operand.shape == .sequence) = true ∧
        (parse? true "const value = useMemo(() => { x: x }, [x]);".toList).map
          (fun tree => (tree.root.nodes.filterMap Node.value?).length) = some 0 ∧
        (parse? true "const value = computed(() => x.value, 2);".toList).map
          (fun tree => tree.root.argumentCounts) = some [2] := by decide +kernel
  refine ⟨hob, hs, fun operand ho hw => ?_, fun operand ho hw => ?_, hbl, ha⟩
  · rw [ho] at hb
    exact Bool.eq_false_iff.mp hw.fitsArrow.brace hb
  · rw [ho] at hc
    exact ne_sequence_of_tight hw.fitsArrow.tight (beq_iff_eq.mp hc)

end Polyview
