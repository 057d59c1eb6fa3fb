import Polyview.Proofs.Script.Reading.Pattern

/-! # What types read -/

namespace Polyview.Script

variable {g : Grammar} [g.Sound] {source : List Char} {context : Context} {c c' : Cursor} {start : ℕ}
  {node : Node} {nodes : List Node}

/-! ### Arguments and parameters -/

@[grind .]
theorem stays_seesLess : Stays seesLess := by
  intro _ _ _ _ h
  unfold seesLess at h
  grind

@[grind .]
theorem lays_typeArguments : LaysNode (typeArguments g) := by
  intro _ _ _ _ _ h hc
  unfold typeArguments at h
  grind

@[grind .]
theorem lays_typeArguments? : Lays id (typeArguments? g) := by
  intro _ _ _ _ _ h hc
  unfold typeArguments? at h
  grind

@[grind .]
theorem advances_variance : Advances variance := by
  intro source _ c _ c' h hc
  refine Runs.extend (fun _ c' => Leads source c c') ?_ h ⟨hc, Nat.le_refl _, Nat.le_refl _⟩
  intro seen c₁ found c₂ hl hs
  rw [runs_keyword?_bind] at hs
  split at hs
  · split at hs <;> grind
  · grind

@[grind .]
theorem lays_typeParameter : LaysNode (typeParameter g) := by
  intro _ _ _ _ _ h hc
  unfold typeParameter at h
  grind

@[grind .]
theorem lays_typeParameters : LaysNode (typeParameters g) := by
  intro _ _ _ _ _ h hc
  unfold typeParameters at h
  grind

@[grind .]
theorem lays_typeParameters? : Lays id (typeParameters? g) := by
  intro _ _ _ _ _ h hc
  unfold typeParameters? at h
  grind

/-! ### Names -/

@[grind →]
theorem extends_qualifiedName {head : Node} (h : Runs (qualifiedName start head) context c node c')
    (hc : c.On source) : Extends source start head c node c' := by
  intro hst hl hw hf hr
  refine Runs.extend (ReadsNode source start c) ?_ h
    ⟨⟨hc, Nat.le_refl _, Nat.le_refl _⟩, hl, hw, hf, hr⟩
  intro left c₁ found c₂ hre hs
  clear h
  grind

@[grind .]
theorem lays_typeName : LaysNode typeName := by
  intro _ _ _ _ _ h hc
  unfold typeName at h
  grind

@[grind .]
theorem lays_typeReference : LaysNode (typeReference g) := by
  intro _ _ _ _ _ h hc
  unfold typeReference at h
  grind

@[grind .]
theorem lays_importOptions : LaysNode (importOptions g) := by
  intro _ _ _ _ _ h hc
  unfold importOptions at h
  grind

@[grind →]
theorem grows_importedType (h : Runs (importedType g start) context c node c') (hc : c.On source) :
    Grows source start [] c node c' := by
  simp only [importedType, runs_bind, runs_tokenKind] at h
  obtain ⟨_, c₁, hw, _, c₂, ho, _, _, ⟨rfl, rfl⟩, h⟩ := h
  split at h
  · have hn : LaysNode (do next; plainName) := by
      intro source context c node c' h hc
      grind
    have hm := hn.manyUntil (stays_not_sees .dot).advances
    grind
  · grind

@[grind .]
theorem lays_typeQuery : LaysNode (typeQuery g) := by
  intro _ _ _ _ _ h hc
  unfold typeQuery at h
  grind

/-! ### Predicates -/

@[grind .]
theorem lays_typeOrPredicate : LaysNode (typeOrPredicate g) := by
  intro _ _ _ _ _ h hc
  unfold typeOrPredicate at h
  grind

@[grind .]
theorem lays_assertion : LaysNode (assertion g) := by
  intro _ _ _ _ _ h hc
  unfold assertion at h
  grind

@[grind .]
theorem lays_returnType? : Lays id (returnType? g) := by
  intro _ _ _ _ _ h hc
  unfold returnType? at h
  grind

/-! ### Functions -/

@[grind →]
theorem grows_functionTypeRest {form : TypeForm} (h : Runs (functionTypeRest g start form) context c node c')
    (hc : c.On source) : Grows source start [] c node c' := by
  unfold functionTypeRest at h
  grind

theorem lays_functionType? : LaysSome (functionType? g) := by
  intro _ _ _ _ _ h hc
  rw [functionType?, runs_startOffset_bind, runs_tokenKind_bind] at h
  split at h <;> grind [seesFunctionType]

/-! ### Members of object types -/

@[grind .]
theorem stays_seesIndexSignature : Stays seesIndexSignature := by
  intro _ _ _ _ h
  unfold seesIndexSignature at h
  grind

@[grind .]
theorem advances_endMember : Advances endMember := by
  intro _ _ _ _ _ h hc
  unfold endMember at h
  grind

@[grind →]
theorem grows_indexSignature (h : Runs (indexSignature g start) context c node c') (hc : c.On source) :
    Grows source start [] c node c' := by
  unfold indexSignature at h
  grind

@[grind .]
theorem lays_signatureRest : Lays id (signatureRest g) := by
  intro _ _ _ _ _ h hc
  unfold signatureRest at h
  grind

@[grind .]
theorem moves_signatureRest : Moves (signatureRest g) := by
  intro _ _ _ _ _ h hc
  unfold signatureRest at h
  grind

@[grind .]
theorem stays_seesAccessor : Stays seesAccessor := by
  intro _ _ _ _ h
  rw [seesAccessor, runs_keyword?_bind] at h
  split at h <;> grind

@[grind →]
theorem grows_accessorMember (h : Runs (accessorMember g start) context c node c') (hc : c.On source) :
    Grows source start [] c node c' := by
  unfold accessorMember at h
  grind

@[grind →]
theorem grows_namedMember {isReadonly : Bool} (h : Runs (namedMember g start isReadonly) context c node c')
    (hc : c.On source) : Grows source start [] c node c' := by
  unfold namedMember at h
  grind

@[grind .]
theorem lays_typeMember : LaysNode (typeMember g) := by
  intro _ _ _ _ _ h hc
  unfold typeMember at h
  grind

@[grind .]
theorem lays_typeMembers : Lays id (typeMembers g) := by
  intro _ _ _ _ _ h hc
  unfold typeMembers at h
  grind

@[grind .]
theorem moves_typeMembers : Moves (typeMembers g) := by
  intro _ _ _ _ _ h hc
  unfold typeMembers at h
  grind

/-! ### Mapped types and tuples -/

theorem advances_skipSigned {modifier : Parse Bool} (hm : Advances modifier) : Advances (skipSigned modifier) := by
  intro _ _ _ _ _ h hc
  unfold skipSigned at h
  grind

@[grind .]
theorem lays_mappedKey : LaysNode (mappedKey g) := by
  intro _ _ _ _ _ h hc
  unfold mappedKey at h
  grind

@[grind .]
theorem lays_mappedType : LaysNode (mappedType g) := by
  intro _ _ _ _ _ h hc
  have hr : Advances (skipSigned (eatWord .kwReadonly)) := advances_skipSigned fun _ _ _ _ _ h hc => by grind
  have hq : Advances (skipSigned (eat .question)) := advances_skipSigned fun _ _ _ _ _ h hc => by grind
  unfold mappedType at h
  grind

@[grind .]
theorem stays_seesTupleName : Stays seesTupleName := by
  intro _ _ _ _ h
  unfold seesTupleName at h
  grind

theorem lays_tupleElement : Lays (fun element => [element.1]) (tupleElement g) := by
  intro _ _ _ _ _ h hc
  unfold tupleElement at h
  grind

@[grind .]
theorem lays_tupleType : LaysNode (tupleType g) := by
  intro _ _ _ _ _ h hc
  have he := lays_commaList_map .rbracket (lays_tupleElement (g := g))
  unfold tupleType at h
  grind

/-! ### Single types -/

@[grind →]
theorem flags_endsTemplate {tagged closed : Bool} (h : Runs (endsTemplate tagged) context c closed c') :
    c.token.kind.isSolid ∧ ∃ bad, c' = c.flag bad := by
  rw [endsTemplate, runs_tokenKind_bind] at h
  split at h <;> grind

theorem reads_templateStep {part : Parse Node} {tagged : Bool} {state : Bool × List Node} {c₀ : Cursor}
    {found : Option (Bool × List Node)} (hp : LaysNode part)
    (h : Runs (templateStep part tagged state) context c found c') (hr : ReadsReverse source start c₀ state.2 c) :
    ReadsReverse source start c₀ (found.getD state).2 c' := by
  have ho := hr.leads.on
  simp only [templateStep, runs_bind, runs_ite, runs_pure, runs_reject, runs_sees, runs_modify] at h
  split at h
  · obtain ⟨rfl, rfl⟩ := h
    exact hr
  obtain ⟨_, c₁, ⟨rfl, hs⟩, h⟩ := h
  split at h
  · next hy =>
    have hsc := ho.rescan_template (hs.mp hy)
    obtain ⟨_, _, rfl, closed, c₂, hc, h⟩ := h
    split at h
    · obtain ⟨_, _, hn, rfl, rfl⟩ := h
      exact hr.trans (by grind)
    · obtain ⟨_, c₃, hn, value, _, hv, rfl, rfl⟩ := h
      have hl : Leads source c₁ c₃ := by grind
      exact hr.cons hl (hp hv hl.on)
  · exact h.elim

theorem lays_templateWith {part : Parse Node} {shape : Shape} (tagged : Bool) (hp : LaysNode part)
    (hsh : shape.isPlain) : LaysNode (templateWith part shape tagged) := by
  intro source _ c _ c' h hc
  rw [templateWith, runs_startOffset_bind] at h
  simp only [runs_bind, runs_ite] at h
  obtain ⟨closed, c₁, hch, h⟩ := h
  split at h
  · grind
  · obtain ⟨_, c₂, hn, first, c₃, hf, parts, c₄, hpt, h⟩ := h
    have hr : ReadsReverse source c.token.span.start c parts.2 c₄ :=
      Runs.extend (fun state c' => ReadsReverse source c.token.span.start c state.2 c')
        (fun hr hs => reads_templateStep hp hs hr) hpt (by grind)
    grind

@[grind .]
theorem stays_endsUnknownType : Stays endsUnknownType := by
  intro _ _ _ _ h
  rw [endsUnknownType, runs_tokenKind_bind] at h
  split at h <;> grind

@[grind .]
theorem stays_seesMappedType : Stays seesMappedType := stays_ahead _

@[grind .]
theorem lays_simpleType : LaysNode (simpleType g) := by
  intro _ _ _ _ _ h hc
  have ht : LaysNode (templateWith g.type (.type .template) false) := lays_templateWith false Grammar.Sound.type rfl
  rw [simpleType, runs_startOffset_bind, runs_tokenKind_bind] at h
  split at h
  case h_5 =>
    rw [runs_next_bind, runs_tokenKind_bind] at h
    split at h <;> grind
  all_goals grind

theorem reads_postfixStep {type : Node} {found : Option Node} {c₀ : Cursor}
    (h : Runs (postfixStep g start type) context c found c') (hs : Boundary source start)
    (hr : ReadsNode source start c₀ type c) : ReadsNode source start c₀ (found.getD type) c' := by
  unfold postfixStep at h
  grind

@[grind .]
theorem lays_postfixType : LaysNode (postfixType g) := by
  intro source _ c _ _ h hc
  rw [postfixType, runs_startOffset_bind, runs_bind] at h
  obtain ⟨head, c₁, hh, h⟩ := h
  exact Runs.extend (ReadsNode source c.token.span.start c)
    (fun hr hs => reads_postfixStep hs hc.start_boundary hr) h (lays_simpleType hh hc)

/-! ### Types -/

@[grind .]
theorem lays_inferBound : Lays id (inferBound g) := by
  intro _ _ _ _ _ h hc
  simp only [inferBound, runs_bind, runs_ite, runs_attempt, runs_pure, runs_seesWord] at h
  obtain ⟨yes, _, ⟨rfl, hy⟩, h⟩ := h
  split at h
  · obtain ⟨found, c₁, ⟨type, rfl, ht⟩ | ⟨rfl, rfl, -⟩, rfl, rfl⟩ := h
    · grind
    · exact .nil hc
  · obtain ⟨rfl, rfl⟩ := h
    exact .nil hc

theorem lays_typeOperand : LaysNode (typeOperand g) := by
  intro _ _ _ _ _ h hc
  rw [typeOperand, runs_startOffset_bind, runs_keyword?_bind] at h
  split at h <;> grind

@[grind ←]
theorem lays_joinedTypes {sign : Punct} {form : TypeForm} {operand : Parse Node} (ho : LaysNode operand) :
    LaysNode (joinedTypes sign form operand) := by
  intro source _ c _ _ h hc
  rw [joinedTypes, runs_startOffset_bind] at h
  simp only [runs_bind] at h
  obtain ⟨leading, c₁, hl, first, c₂, hfs, types, c₃, ht, h⟩ := h
  have hr : ReadsReverse source c.token.span.start c types c₃ := reads_separated ho ht (by grind)
  have hf := hr.firm
  have hro := hr.row
  split at h <;> grind

theorem lays_type : LaysNode (type g) := by
  intro _ _ _ _ _ h hc
  rw [type, runs_startOffset_bind, runs_bind] at h
  obtain ⟨found, c₁, hf, h⟩ := h
  have hs := lays_functionType? hf hc
  cases found with
  | some type => grind
  | none => grind

end Polyview.Script
