import Polyview.Proofs.Script.Reading.Basic

/-! # What patterns and parameters read -/

namespace Polyview.Script

variable {g : Grammar} [g.Sound]

@[grind .]
theorem lays_propertyKey : LaysNode (propertyKey g) := by
  intro _ _ _ _ _ h hc
  rw [propertyKey, runs_tokenKind_bind] at h
  split at h <;> grind

/-! ### Patterns -/

@[grind .]
theorem lays_initializer? : Lays id (initializer? g) := by
  intro _ _ _ _ _ h hc
  unfold initializer? at h
  grind

@[grind .]
theorem lays_patternElement : LaysNode (patternElement g) := by
  intro _ _ _ _ _ h hc
  unfold patternElement withDefault at h
  grind

@[grind ←]
theorem lays_restElement {target : Parse Node} (ht : LaysNode target) (close : Punct) :
    LaysNode (restElement target close) := by
  intro _ _ _ _ _ h hc
  unfold restElement at h
  grind

@[grind .]
theorem lays_arrayPattern : LaysNode (arrayPattern g) := by
  intro source _ _ _ _ h hc
  simp only [arrayPattern, runs_bind] at h
  obtain ⟨start, c₁, hs, _, c₂, ho, parts, c₃, hp, h⟩ := h
  have hr : Reads source c₂.token.span.start c₂ parts c₃ :=
    LaysNode.manyUntil (fun _ _ _ _ _ h hc => by grind) (stays_sees _).advances hp
      (by grind)
  grind

@[grind .]
theorem lays_patternProperty : LaysNode (patternProperty g) := by
  intro _ _ _ _ _ h hc
  unfold patternProperty withDefault at h
  grind

@[grind .]
theorem lays_objectPattern : LaysNode (objectPattern g) := by
  intro _ _ _ _ _ h hc
  unfold objectPattern at h
  grind

theorem lays_pattern : LaysNode (pattern g) := by
  intro _ _ _ _ _ h hc
  rw [pattern, runs_tokenKind_bind] at h
  split at h <;> grind

/-! ### Parameters -/

@[grind .]
theorem lays_decorator : LaysNode (decorator g) := by
  intro _ _ _ _ _ h hc
  unfold decorator at h
  grind

@[grind .]
theorem lays_decorators : Lays id (decorators g) := lays_decorator.manyUntil (stays_not_sees _).advances

omit [g.Sound] in
theorem shape_of_decorator (h : Runs (decorator g) context c node c') : node.shape = .decorator := by
  unfold decorator at h
  grind [Node.shape]

omit [g.Sound] in
theorem decorators_of_runs {marks : List Node} (h : Runs (decorators g) context c marks c') : Decorators marks :=
  forall_manyUntil _ (fun _ => True) (fun _ _ => trivial) (fun _ h => ⟨shape_of_decorator h, trivial⟩) h trivial

grind_pattern decorators_of_runs => Runs (decorators g) context c marks c'

@[grind .]
theorem advances_modifier? (seen : Modifiers) : Advances (modifier? seen) := by
  intro _ _ _ _ _ h hc
  rw [modifier?, runs_keyword?_bind] at h
  split at h
  · grind
  · split at h <;> grind
  · grind

@[grind .]
theorem advances_modifiers : Advances modifiers := by
  intro source _ c _ c' h hc
  refine Runs.extend (fun _ c' => Leads source c c') ?_ h ⟨hc, Nat.le_refl _, Nat.le_refl _⟩
  intro seen c₁ found c₂ hl hs
  rw [runs_bind] at hs
  obtain ⟨change, c₃, hch, hs⟩ := hs
  split at hs <;> grind

@[grind .]
theorem lays_typeClause : LaysNode (typeClause g) := by
  intro _ _ _ _ _ h hc
  unfold typeClause at h
  grind

@[grind .]
theorem lays_typeClause? : Lays id (typeClause? g) := by
  intro _ _ _ _ _ h hc
  unfold typeClause? at h
  grind

@[grind .]
theorem stays_endsParams : Stays endsParams := by
  intro _ _ _ _ h
  unfold endsParams at h
  grind

@[grind →]
theorem reads_restParam {source : List Char} {context : Context} {c c' : Cursor} {start : ℕ}
    {marks nodes : List Node} (h : Runs (restParam g start marks) context c nodes c') (hc : c.On source) :
    GrowsAll source start marks c nodes c' := by
  unfold restParam at h
  grind

@[grind .]
theorem lays_thisParam? : Lays id (thisParam? g) := by
  intro _ _ _ _ _ h hc
  unfold thisParam? at h
  grind

@[grind .]
theorem lays_param (inClass : Bool) : Lays id (param g inClass) := by
  intro _ _ _ _ _ h hc
  unfold param at h
  grind

@[grind .]
theorem lays_params (inClass : Bool) : LaysNode (params g inClass) := by
  intro _ _ _ _ _ h hc
  unfold params at h
  grind

end Polyview.Script
