import Polyview.Proofs.Script.Place
import Polyview.Script.Scope

/-! # Variables in scope

Every node on the way from the root of a tree to a place may bind variables that are in scope there: functions
their parameters and, in their bodies, what these declare; blocks and loops what their statements declare. `boundAt`
collects them. Each is the name of a binding in the tree (`boundAt_subset`). -/

namespace Polyview.Script

open List Node

variable {declared : Declared}

/-- The names with values among declared ones. -/
def valueNames (declared : List Declared) : List String :=
  (declared.filter fun declaration => declaration.2.isValue).map Prod.fst

/-- What a function binds in one of its parts: its parameters, and in its body also what that declares. -/
def functionNames (parts : List Node) (i : ℕ) : List String :=
  if (parts[i]?).any fun part => part.shape == .body then valueNames (functionDeclarations parts)
  else parameterNames parts

/-- The variables that a node binds in its part at an index. Declarations are bound where they stand, expressions
that are named only in themselves. -/
def Node.boundIn : Node → ℕ → List String
  | .mk (.functionNode ..) _ parts, i => parts.filterMap bindingName? ++ functionNames parts i
  | .mk (.arrow ..) _ parts, i => functionNames parts i
  | .mk (.classNode ..) _ parts, _ => parts.filterMap bindingName?
  | .mk .catchClause _ parts, _ => parts.flatMap patternNames
  | .mk .switchStatement span parts, i =>
    -- the value that is switched on is outside of the scope of the cases
    if i = 0 then [] else valueNames (scopeDeclarations (.mk .switchStatement span parts))
  | .mk (.enumDeclaration ..) _ _, _ => []
  | node, _ => valueNames (scopeDeclarations node)

/-- The variables that are in scope at a place of a tree and bound in the tree. -/
def Node.boundAt : Node → List ℕ → List String
  | _, [] => []
  | node, i :: place => node.boundIn i ++ ((node.parts[i]?).map fun part => part.boundAt place).getD []

variable {node part : Node} {nodes parts : List Node} {name : String}

/-! ### Names are bindings -/

theorem Node.mem_bindings_iff :
    name ∈ node.bindings ↔ node.bindingName? = some name ∨ ∃ part ∈ node.parts, name ∈ part.bindings := by
  rw [bindings, nodes_eq, mem_filterMap]
  simp only [bindings, mem_filterMap, mem_cons, mem_nodesOf_iff]
  constructor
  · rintro ⟨inner, rfl | ⟨part, hp, hi⟩, hn⟩
    · exact .inl hn
    · exact .inr ⟨part, hp, inner, hi, hn⟩
  · rintro (hn | ⟨part, hp, inner, hi, hn⟩)
    · exact ⟨node, .inl rfl, hn⟩
    · exact ⟨inner, .inr ⟨part, hp, hi⟩, hn⟩

/-- A name is bound in one of some trees. -/
def BoundAmong (nodes : List Node) (name : String) : Prop := ∃ node ∈ nodes, name ∈ node.bindings

theorem BoundAmong.of_part (hp : part ∈ nodes) (h : BoundAmong part.parts name) : BoundAmong nodes name := by
  obtain ⟨inner, hi, hn⟩ := h
  exact ⟨part, hp, mem_bindings_iff.mpr (.inr ⟨inner, hi, hn⟩)⟩

theorem BoundAmong.mem_bindings {shape : Shape} {span : Span} (h : BoundAmong parts name) :
    name ∈ (Node.mk shape span parts).bindings :=
  mem_bindings_iff.mpr (.inr h)

theorem boundAmong_flatMap {names : Node → List String} (hnm : ∀ node ∈ nodes, names node ⊆ node.bindings)
    (h : name ∈ nodes.flatMap names) : BoundAmong nodes name := by
  obtain ⟨node, hn, hna⟩ := mem_flatMap.mp h
  exact ⟨node, hn, hnm node hn hna⟩

theorem boundAmong_bindingName? (h : name ∈ nodes.filterMap bindingName?) : BoundAmong nodes name := by
  obtain ⟨node, hno, hn⟩ := mem_filterMap.mp h
  exact ⟨node, hno, mem_bindings_iff.mpr (.inl hn)⟩

theorem mem_patternNamesOf : name ∈ patternNamesOf nodes ↔ ∃ node ∈ nodes, name ∈ patternNames node := by
  induction nodes with
  | nil => simp [patternNamesOf]
  | cons node rest ih => simp [patternNamesOf, ih]

theorem patternNames_subset (node : Node) : patternNames node ⊆ node.bindings := by
  induction node using Node.induction with
  | h shape span parts ih =>
    have hp {part : Node} (hm : part ∈ parts) : patternNames part ⊆ (Node.mk shape span parts).bindings :=
      fun name hn => BoundAmong.mem_bindings ⟨part, hm, ih part hm hn⟩
    have hpt : patternNamesOf parts ⊆ (Node.mk shape span parts).bindings := by
      intro name hn
      obtain ⟨part, hm, hn⟩ := mem_patternNamesOf.mp hn
      exact hp hm hn
    intro name hn
    unfold patternNames at hn
    split at hn
    · next h =>
      cases h
      exact mem_bindings_iff.mpr (.inl (mem_singleton.mp hn ▸ rfl))
    · next h => cases h; exact hpt hn
    · next h => cases h; exact hpt hn
    · next h => cases h; exact hp (by simp) hn
    · next h => cases h; exact hpt hn
    · next h => cases h; exact hp (by simp) hn
    · next h => cases h; exact hp (by simp) hn
    · next h => cases h; exact hp (by simp) hn
    · cases hn

theorem declaratorNames_subset (node : Node) : declaratorNames node ⊆ node.bindings := by
  intro name hn
  unfold declaratorNames at hn
  cases hp : node.part? with
  | none => rw [hp] at hn; cases hn
  | some part =>
    rw [hp] at hn
    exact mem_bindings_iff.mpr (.inr ⟨part, mem_of_head? hp, patternNames_subset part hn⟩)

theorem paramNames_subset (node : Node) : paramNames node ⊆ node.bindings := by
  intro name hn
  unfold paramNames at hn
  split at hn
  · obtain ⟨part, hp, hn⟩ := mem_patternNamesOf.mp hn
    exact mem_bindings_iff.mpr (.inr ⟨part, hp, patternNames_subset part hn⟩)
  · exact patternNames_subset node hn
  · cases hn

theorem mem_hoistedNamesOf : name ∈ hoistedNamesOf nodes ↔ ∃ node ∈ nodes, name ∈ hoistedNames node := by
  induction nodes with
  | nil => simp [hoistedNamesOf]
  | cons node rest ih => simp [hoistedNamesOf, ih]

theorem hoistedNames_subset (node : Node) : hoistedNames node ⊆ node.bindings := by
  induction node using Node.induction with
  | h shape span parts ih =>
    intro name hn
    unfold hoistedNames at hn
    split at hn
    · next h =>
      cases h
      exact (boundAmong_flatMap (fun part _ => declaratorNames_subset part) hn).mem_bindings
    · cases hn
    · cases hn
    · cases hn
    · cases hn
    · cases hn
    · next h =>
      cases h
      obtain ⟨part, hp, hn⟩ := mem_hoistedNamesOf.mp hn
      exact BoundAmong.mem_bindings ⟨part, hp, ih part hp hn⟩

/-! ### Declarations are bindings -/

theorem boundAmong_ownName {meaning : Meaning} (h : declared ∈ ownName parts meaning) :
    BoundAmong parts declared.1 := by
  unfold ownName at h
  split at h
  · next first rest hn =>
    obtain rfl := mem_singleton.mp h
    exact boundAmong_bindingName? (hn ▸ .head _)
  · cases h

theorem declarations_subset (h : declared ∈ declarations node) : declared.1 ∈ node.bindings := by
  induction node using Node.induction with
  | h shape span parts ih =>
    have ho {meaning : Meaning} (h : declared ∈ ownName parts meaning) :
        declared.1 ∈ (Node.mk shape span parts).bindings := (boundAmong_ownName h).mem_bindings
    have hi {inner : Node} (heq : parts = [inner]) (h : declared ∈ declarations inner) :
        declared.1 ∈ (Node.mk shape span parts).bindings := by
      have hm : inner ∈ parts := heq ▸ mem_singleton_self inner
      exact BoundAmong.mem_bindings ⟨inner, hm, ih inner hm h⟩
    unfold declarations at h
    split at h
    case h_1 heq =>
      cases heq
      obtain ⟨name, hn, rfl⟩ := mem_map.mp h
      exact (boundAmong_flatMap (fun part _ => declaratorNames_subset part) hn).mem_bindings
    case h_9 heq =>
      cases heq
      obtain ⟨part, hp, h⟩ := mem_flatMap.mp h
      exact (BoundAmong.of_part hp (boundAmong_ownName h)).mem_bindings
    case h_10 heq | h_11 heq | h_12 heq => cases heq; exact hi rfl h
    case h_13 =>
      obtain ⟨name, hn, rfl⟩ := mem_map.mp h
      exact hoistedNames_subset _ hn
    all_goals
      next heq => cases heq; exact ho h

theorem boundAmong_declarations (h : declared ∈ nodes.flatMap declarations) : BoundAmong nodes declared.1 := by
  obtain ⟨node, hn, h⟩ := mem_flatMap.mp h
  exact ⟨node, hn, declarations_subset h⟩

theorem boundAmong_parameterNames (h : name ∈ parameterNames parts) : BoundAmong parts name := by
  unfold parameterNames at h
  split at h
  · next list hl =>
    exact .of_part (mem_of_find?_eq_some hl) (boundAmong_flatMap (fun part _ => paramNames_subset part) h)
  · cases h

theorem boundAmong_functionDeclarations (h : declared ∈ functionDeclarations parts) : BoundAmong parts declared.1 := by
  unfold functionDeclarations at h
  rw [mem_append, mem_append] at h
  rcases h with (h | h) | h
  · unfold typeParameterNames at h
    split at h
    · next list hl =>
      obtain ⟨part, hp, h⟩ := mem_flatMap.mp h
      exact .of_part (mem_of_find?_eq_some hl) (.of_part hp (boundAmong_ownName h))
    · cases h
  · obtain ⟨name, hn, rfl⟩ := mem_map.mp h
    exact boundAmong_parameterNames hn
  · split at h
    · next body hb => exact .of_part (mem_of_find?_eq_some hb) (boundAmong_declarations h)
    · cases h

theorem boundAmong_catchDeclarations (h : declared ∈ catchDeclarations parts) : BoundAmong parts declared.1 := by
  obtain ⟨part, hp, h⟩ := mem_flatMap.mp h
  split at h
  · exact .of_part hp (boundAmong_declarations h)
  · obtain rfl := mem_singleton.mp h
    exact ⟨_, hp, mem_bindings_iff.mpr (.inl rfl)⟩
  · obtain ⟨name, hn, rfl⟩ := mem_map.mp h
    exact ⟨part, hp, patternNames_subset part hn⟩

/-- Whatever a scope declares, members of enumerations apart, is bound in it. -/
theorem scopeDeclarations_subset (he : ∀ isConst isDeclared,
      node.shape ≠ .enumDeclaration isConst isDeclared) (h : declared ∈ scopeDeclarations node) :
    BoundAmong node.parts declared.1 := by
  unfold scopeDeclarations at h
  split at h
  case h_5 | h_6 => exact boundAmong_functionDeclarations h
  case h_7 => exact boundAmong_catchDeclarations h
  case h_11 =>
    obtain ⟨part, hp, h⟩ := mem_flatMap.mp h
    exact .of_part hp (boundAmong_declarations h)
  case h_12 => exact (he _ _ rfl).elim
  case h_13 =>
    obtain ⟨name, hn, rfl⟩ := mem_map.mp h
    exact boundAmong_flatMap (fun part _ => paramNames_subset part) hn
  case h_14 => cases h
  all_goals exact boundAmong_declarations h

/-! ### What is in scope -/

theorem boundAmong_functionNames {i : ℕ} (h : name ∈ functionNames parts i) : BoundAmong parts name := by
  unfold functionNames at h
  split at h
  · obtain ⟨declared, hd, rfl⟩ := mem_map.mp h
    exact boundAmong_functionDeclarations (mem_of_mem_filter hd)
  · exact boundAmong_parameterNames h

theorem boundAmong_valueNames (he : ∀ isConst isDeclared, node.shape ≠ .enumDeclaration isConst isDeclared)
    (h : name ∈ valueNames (scopeDeclarations node)) : BoundAmong node.parts name := by
  obtain ⟨declared, hd, rfl⟩ := mem_map.mp h
  exact scopeDeclarations_subset he (mem_of_mem_filter hd)

theorem Node.boundIn_subset {i : ℕ} (h : name ∈ node.boundIn i) : BoundAmong node.parts name := by
  unfold boundIn at h
  split at h
  · rcases mem_append.mp h with h | h
    · exact boundAmong_bindingName? h
    · exact boundAmong_functionNames h
  · exact boundAmong_functionNames h
  · exact boundAmong_bindingName? h
  · exact boundAmong_flatMap (fun part _ => patternNames_subset part) h
  · split at h
    · cases h
    · exact boundAmong_valueNames (by rintro _ _ ⟨⟩) h
  · cases h
  · next he =>
    refine boundAmong_valueNames (fun isConst isDeclared hs => ?_) h
    rcases node with ⟨shape, span, parts⟩
    obtain rfl : shape = .enumDeclaration isConst isDeclared := hs
    exact he _ _ _ _ rfl

/-- **What is in scope** at a place of a tree and bound in it is the name of one of its bindings. -/
theorem Node.boundAt_subset (node : Node) (place : List ℕ) : node.boundAt place ⊆ node.bindings := by
  induction place generalizing node with
  | nil => nofun
  | cons i place ih =>
    intro name h
    rw [boundAt, mem_append] at h
    rcases h with h | h
    · exact mem_bindings_iff.mpr (.inr (boundIn_subset h))
    · cases hp : node.parts[i]? with
      | none => rw [hp] at h; cases h
      | some part =>
        rw [hp] at h
        exact mem_bindings_iff.mpr (.inr ⟨part, mem_of_getElem? hp, ih part h⟩)

end Polyview.Script
