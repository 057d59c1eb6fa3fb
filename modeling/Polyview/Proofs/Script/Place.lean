import Mathlib.Data.List.Basic
import Polyview.Script.Node

/-! # Places in a tree

A place tells the way from the root of a tree to one of its nodes: which part to go to, again and again.
Statements on what happens to a certain occurrence of a node are stated for its place, since equal nodes
may stand at several places of a tree. -/

namespace Polyview.Script.Node

open List

variable {P : Node → Prop} {node : Node}

/-- What holds of a node if it holds of its parts holds of all nodes. -/
theorem induction
    (h : ∀ shape span parts, (∀ part ∈ parts, P part) → P (.mk shape span parts)) : ∀ node, P node
  | .mk shape span parts => h shape span parts fun part _ => induction h part

theorem inductionOnParts (h : ∀ node : Node, (∀ part ∈ node.parts, P part) → P node)
    (node : Node) : P node :=
  induction (fun shape span parts => h (.mk shape span parts)) node

def at? : Node → List ℕ → Option Node
  | node, [] => some node
  | node, i :: place => (node.parts[i]?).bind fun part => part.at? place

@[simp]
theorem at?_nil (node : Node) : node.at? [] = some node := rfl

theorem at?_cons_eq_some {found : Node} {i : ℕ} {place : List ℕ} :
    node.at? (i :: place) = some found ↔ ∃ part, node.parts[i]? = some part ∧ part.at? place = some found := by
  rw [at?, Option.bind_eq_some_iff]

theorem at?_append (node : Node) (outer inner : List ℕ) :
    node.at? (outer ++ inner) = (node.at? outer).bind fun part => part.at? inner := by
  induction outer generalizing node with
  | nil => rfl
  | cons i outer ih =>
    rw [cons_append, at?, at?, Option.bind_assoc]
    congr 1
    funext part
    exact ih part

/-- What holds of a node if it holds of all that stand further below in it holds of all nodes. -/
theorem strongInduction
    (h : ∀ node, (∀ i place inner, node.at? (i :: place) = some inner → P inner) → P node) (node : Node) : P node := by
  suffices ha : ∀ place inner, node.at? place = some inner → P inner from ha [] node rfl
  induction node using induction with
  | h shape span parts ih =>
    have below : ∀ i place inner, (mk shape span parts).at? (i :: place) = some inner → P inner := by
      intro i place inner hi
      obtain ⟨part, hp, hi⟩ := at?_cons_eq_some.mp hi
      exact ih part (mem_of_getElem? hp) place inner hi
    intro place inner hi
    rcases place with _ | ⟨i, place⟩
    · cases hi
      exact h _ below
    · exact below i place inner hi

theorem mem_nodesOf_iff {nodes : List Node} :
    node ∈ nodesOf nodes ↔ ∃ part ∈ nodes, node ∈ part.nodes := by
  induction nodes with
  | nil => simp [nodesOf]
  | cons part rest ih => simp [nodesOf, ih]

theorem nodes_eq (node : Node) : node.nodes = node :: nodesOf node.parts := by
  cases node
  rw [nodes]
  rfl

theorem self_mem_nodes (node : Node) : node ∈ node.nodes := by
  rw [nodes_eq]
  exact .head _

/-- The nodes of a tree are those that stand at its places. -/
theorem mem_nodes_iff {root : Node} : node ∈ root.nodes ↔ ∃ place, root.at? place = some node := by
  induction root using induction with
  | h shape span parts ih =>
    rw [nodes, mem_cons, mem_nodesOf_iff]
    constructor
    · rintro (rfl | ⟨part, hpa, hn⟩)
      · exact ⟨[], rfl⟩
      · obtain ⟨place, hp⟩ := (ih part hpa).mp hn
        obtain ⟨i, hi⟩ := mem_iff_getElem?.mp hpa
        exact ⟨i :: place, at?_cons_eq_some.mpr ⟨part, hi, hp⟩⟩
    · rintro ⟨place, hp⟩
      rcases place with _ | ⟨i, place⟩
      · exact Or.inl (Option.some.inj hp).symm
      · obtain ⟨part, hpa, hp⟩ := at?_cons_eq_some.mp hp
        have hm := mem_of_getElem? hpa
        exact Or.inr ⟨part, hm, (ih part hm).mpr ⟨place, hp⟩⟩

end Polyview.Script.Node
