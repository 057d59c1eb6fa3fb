import Mathlib.Data.List.TakeDrop
import Polyview.Proofs.Script.Reading.Type

/-! # What functions and classes read -/

namespace Polyview.Script

open List

variable {g : Grammar} [g.Sound] {source : List Char} {context : Context} {c c' : Cursor} {node : Node}
  {nodes : List Node} {isAsync isGenerator : Bool} {marks : List Node} {mods : Modifiers} {start : ℕ}

/-! ### Bodies -/

@[grind =]
theorem runs_inFunctionBody {α : Type} {rule : Parse α} {a : α} :
    Runs (inFunctionBody isAsync isGenerator rule) context c a c' ↔ Runs rule { context with
        allowIn := true, inDecorator := false, noConditionalType := false, inFunction := true,
        inAsync := isAsync, inGenerator := isGenerator } c a c' :=
  Iff.rfl

@[grind .]
theorem lays_functionParams (inClass isAsync isGenerator : Bool) :
    LaysNode (functionParams g inClass isAsync isGenerator) := by
  intro _ _ _ _ _ h hc
  unfold functionParams at h
  grind

/-- The statements of a body are cut behind its directives. -/
theorem row_cut_directives (start stop : ℕ) {lo hi : ℕ} {all : List Node} {final : Node}
    (hr : Row source all lo hi) (hfi : (all.takeWhile isDirective).getLast? = some final)
    (hst : Boundary source start) (hlo : start < lo) (hso : Boundary source stop) (hh : hi < stop) :
    Row source [.mk .directives ⟨start, final.span.stop⟩ (all.takeWhile isDirective),
      .mk .body ⟨final.span.stop, stop⟩ (all.dropWhile isDirective)] start stop := by
  obtain ⟨front, hf⟩ := getLast?_eq_some_iff.mp hfi
  have ha : front ++ final :: all.dropWhile isDirective = all := by
    rw [append_cons, ← hf, takeWhile_append_dropWhile]
  rw [← ha] at hr
  obtain ⟨hd, hl, hfr, ht, hsm⟩ := hr.cut
  have hs := hl.boundaries
  rw [← hf] at hd
  have hw : start < final.span.stop := by omega
  refine row_cons.mpr ⟨?_, ?_, ?_, ?_⟩
  all_goals grind

@[grind .]
theorem lays_functionBody (isAsync isGenerator : Bool) : Lays id (functionBody g isAsync isGenerator) := by
  intro source _ _ _ _ h hc
  simp only [functionBody, span_eq_takeWhile_dropWhile, runs_bind] at h
  obtain ⟨start, c₁, hs, _, c₂, ho, all, c₃, ha, _, c₄, hcl, h⟩ := h
  have hr : Reads source c₂.token.span.start c₂ all c₃ := by grind
  split at h
  case h_1 final hf =>
    have hcu := row_cut_directives start c₄.prevStop hr.row hf
    clear ha
    grind
  case h_2 hn =>
    have he := @takeWhile_append_dropWhile _ isDirective all
    rw [getLast?_eq_none_iff.mp hn, nil_append] at he
    rw [he] at h
    clear hn
    grind

@[grind →]
theorem reads_functionRest {form : FunctionForm} {inClass : Bool} {name : List Node}
    (h : Runs (functionRest g start form inClass isAsync isGenerator name) context c node c') (hc : c.On source) :
    Grows source start name c node c' := by
  unfold functionRest at h
  grind

@[grind .]
theorem lays_functionName (form : FunctionForm) (isAsync isGenerator : Bool) :
    LaysNode (functionName form isAsync isGenerator) := by
  intro _ _ _ _ _ h hc
  unfold functionName at h
  grind

@[grind →]
theorem reads_functionWithName {form : FunctionForm} {nameless : Bool}
    (h : Runs (functionWithName g start form isAsync nameless) context c node c') (hc : c.On source) :
    Grows source start [] c node c' := by
  unfold functionWithName at h
  grind

/-! ### Class members -/

@[grind .]
theorem lays_methodRest (inClass : Bool) (kind : MethodKind) (isAsync isGenerator : Bool) :
    LaysNode (methodRest g inClass kind isAsync isGenerator) := by
  intro _ _ _ _ _ h hc
  unfold methodRest at h
  grind

@[grind .]
theorem lays_classKey (mods : Modifiers) : LaysNode (classKey g mods) := by
  intro _ _ _ _ _ h hc
  rw [classKey, runs_tokenKind_bind] at h
  split at h <;> grind

omit [g.Sound] in
theorem shape_of_propertyKey (h : Runs (propertyKey g) context c node c') : node.shape ≠ .decorator := by
  rw [propertyKey, runs_tokenKind_bind] at h
  unfold plainName at h
  split at h <;> grind [Node.shape]

omit [g.Sound] in
theorem shape_of_classKey (h : Runs (classKey g mods) context c node c') : node.shape ≠ .decorator := by
  rw [classKey, runs_tokenKind_bind] at h
  split at h
  · grind [Node.shape]
  · exact shape_of_propertyKey h

omit [g.Sound] in
theorem shape_of_methodRest {inClass : Bool} {kind : MethodKind}
    (h : Runs (methodRest g inClass kind isAsync isGenerator) context c node c') : node.shape ≠ .decorator := by
  unfold methodRest functionRest at h
  grind [Node.shape]

grind_pattern shape_of_classKey => Runs (classKey g mods) context c node c'
grind_pattern shape_of_methodRest => Runs (methodRest g inClass kind isAsync isGenerator) context c node c'

@[grind →]
theorem reads_staticBlock (h : Runs (staticBlock g start marks) context c node c') (hc : c.On source) :
    Grows source start [] c node c' := by
  unfold staticBlock at h
  grind

@[grind →]
theorem reads_classAccessor (h : Runs (classAccessor g start marks mods) context c node c') (hc : c.On source)
    (hs : Decorators marks) : Grows source start marks c node c' := by
  unfold classAccessor keepPrototype at h
  grind

@[grind →]
theorem reads_classField {optional : Bool} {key : Node}
    (h : Runs (classField g start marks mods optional key) context c node c') (hc : c.On source)
    (hk : start < c.prevStop) : Grows source start (marks ++ [key]) c node c' := by
  unfold classField keepPrototype at h
  grind

@[grind →]
theorem reads_classMember (h : Runs (classMember g start marks mods) context c node c') (hc : c.On source)
    (hs : Decorators marks) : Grows source start marks c node c' := by
  unfold classMember keepPrototype at h
  grind

@[grind .]
theorem lays_classElement : LaysNode (classElement g) := by
  intro _ _ _ _ _ h hc
  unfold classElement at h
  grind

@[grind .]
theorem advances_endsMembers : Advances endsMembers := by
  intro source context c _ c' h hc
  simp only [endsMembers, runs_bind, runs_sees] at h
  obtain ⟨skipped, c₁, hs, rfl, -⟩ := h
  have hn : Lays (fun _ => []) next := fun source context c _ c' h hc => by grind
  exact (lays_manyUntil (stays_not_sees _).advances hn hs hc).leads

@[grind .]
theorem lays_classBody : LaysNode (classBody g) := by
  intro _ _ _ _ _ h hc
  unfold classBody at h
  grind

omit [g.Sound] in
theorem shape_of_classBody (h : Runs (classBody g) context c node c') : node.shape = .classBody := by
  unfold classBody at h
  grind [Node.shape]

/-! ### Classes -/

@[grind .]
theorem lays_extendsClause : LaysNode (extendsClause g) := by
  intro _ _ _ _ _ h hc
  unfold extendsClause at h
  grind

@[grind .]
theorem lays_implementsClause : LaysNode (implementsClause g) := by
  intro _ _ _ _ _ h hc
  unfold implementsClause at h
  grind

@[grind .]
theorem lays_className? : Lays id className? := by
  intro _ _ _ _ _ h hc
  unfold className? at h
  grind

@[grind .]
theorem lays_classParents : Lays id (classParents g) := by
  intro _ _ _ _ _ h hc
  unfold classParents at h
  grind

@[grind .]
theorem lays_classHead : Lays id (classHead g) := by
  intro _ _ _ _ _ h hc
  unfold classHead at h
  grind

omit [g.Sound] in
theorem shapes_of_classHead {head : List Node} (h : Runs (classHead g) context c head c') :
    ∀ part ∈ head, part.shape ≠ .classBody := by
  unfold classHead className? typeParameters? typeParameters classParents extendsClause implementsClause
    binding at h
  grind [Node.shape]

/-- A class, of which the decorators may have been read from an earlier offset on. -/
theorem reads_classRest_from {lo : ℕ} {isDeclaration : Bool}
    (h : Runs (classRest g start isDeclaration mods marks) context c node c') (hc : c.On source) (hlo : lo ≤ start)
    (hst : Boundary source start) (hle : start ≤ c.token.span.start) (hm : Row source marks lo c.prevStop)
    (hs : Decorators marks) :
    ReadsLoose source lo c node c' ∧ node.span.start < node.span.stop ∧ node.span.start = start := by
  simp only [classRest, runs_bind] at h
  obtain ⟨_, c₁, hw, _, c₂, hre, head, c₃, hh, body, c₄, hb, h⟩ := h
  have hr : Row source (marks ++ head ++ [body]) lo c₄.prevStop := by grind
  obtain ⟨rfl, rfl⟩ := runs_finish.mp h
  clear h
  have hl : Leads source c c' ∧ start < c'.prevStop := by grind
  have he : EndsInBody (marks ++ head ++ [body]) := by
    refine ⟨marks ++ head, body, rfl, shape_of_classBody hb, fun part hp => ?_⟩
    rcases mem_append.mp hp with hp | hp
    · simp [hs part hp]
    · exact shapes_of_classHead hh part hp
  exact ⟨.of_mayHoist rfl hl.1 hlo hst hl.2 hr he, hl.2, rfl⟩

@[grind →]
theorem reads_classRest {isDeclaration : Bool}
    (h : Runs (classRest g start isDeclaration mods marks) context c node c') (hc : c.On source)
    (hs : Decorators marks) : Grows source start marks c node c' := by
  intro hst hl hm
  obtain ⟨hr, hw, hsp⟩ := reads_classRest_from h hc (Nat.le_refl _) hst hl hm hs
  have hf := hr.facts
  refine ⟨hr.leads, hr.lt, hw, ?_, hr.row⟩
  have := outset_le node
  omega

end Polyview.Script
