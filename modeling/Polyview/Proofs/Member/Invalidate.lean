import Polyview.Proofs.Member.Rendering

/-! # Changes that are told of

In the style that tells of changes nothing is rewritten: a mutation below a member is put into parentheses, and the
expression that tells of the change is added behind it. So the result is the code with texts inserted, two for
each such mutation, and an update always succeeds. -/

namespace Polyview

open List Script

/-- The expression that tells of the mutation that a node is. A member that is assigned as a whole is watched
anyway. -/
def invalidation? (invalidationOf : String → Option String) (node : Node) : Option String :=
  match mutation? node with
  | some (.whole ..) => none
  | some mutation => invalidationOf mutation.member
  | none => none

/-- What is inserted around the text of a node. -/
def wrapping (invalidationOf : String → Option String) (node : Node) : List (ℕ × List Char) :=
  match invalidation? invalidationOf node with
  | some invalidation => [(node.span.start, ['(']), (node.span.stop, (", " ++ invalidation ++ ")").toList)]
  | none => []

mutual
/-- What is inserted into the text of a tree. A mutation that reaches outside of the cut is left alone. -/
def insertions (invalidationOf : String → Option String) (cut : Span) : Node → List (ℕ × List Char)
  | .mk shape span parts =>
    match invalidation? invalidationOf (.mk shape span parts) with
    | some invalidation =>
      if span.within cut then
        (span.start, ['(']) :: insertionsOf invalidationOf cut parts ++
          [(span.stop, (", " ++ invalidation ++ ")").toList)]
      else []
    | none => insertionsOf invalidationOf cut parts

/-- What is inserted into the texts of trees. -/
def insertionsOf (invalidationOf : String → Option String) (cut : Span) : List Node → List (ℕ × List Char)
  | [] => []
  | node :: rest => insertions invalidationOf cut node ++ insertionsOf invalidationOf cut rest
end

variable {source : List Char} {cut : Span} {invalidationOf : String → Option String} {r : Resolver} {node : Node}
  {nodes : List Node} {lo hi : ℕ}

/-! ### The rules of the style -/

theorem replacement_of_invalidation?_eq_none (h : invalidation? invalidationOf node = none) :
    (UpdateStyle.invalidate invalidationOf).replacement node = .keep := by
  unfold invalidation? at h
  unfold UpdateStyle.replacement
  split at h
  · next hm => rw [hm]
  · next mutation hw hm =>
    rw [hm]
    cases mutation with
    | whole member op => rfl
    | _ => dsimp only; rw [h]
  · next hm => rw [hm]

theorem replacement_of_invalidation?_eq_some {invalidation : String}
    (h : invalidation? invalidationOf node = some invalidation) :
    (UpdateStyle.invalidate invalidationOf).replacement node =
      .ofAll fun all => "(" ++ String.ofList all ++ ", " ++ invalidation ++ ")" := by
  unfold invalidation? at h
  unfold UpdateStyle.replacement
  split at h
  · cases h
  · next mutation hw hm =>
    rw [hm]
    cases mutation with
    | whole member op => exact (hw member op rfl).elim
    | _ => dsimp only; rw [h]
  · cases h

theorem insertions_of_none (h : invalidation? invalidationOf node = none) :
    insertions invalidationOf cut node = insertionsOf invalidationOf cut node.parts := by
  cases node
  rw [insertions, h]
  rfl

theorem insertions_of_some {invalidation : String} (h : invalidation? invalidationOf node = some invalidation) :
    insertions invalidationOf cut node = if node.span.within cut then
        (node.span.start, ['(']) :: insertionsOf invalidationOf cut node.parts ++
          [(node.span.stop, (", " ++ invalidation ++ ")").toList)] else [] := by
  cases node
  rw [insertions, h]
  rfl

theorem mem_insertionsOf {insertion : ℕ × List Char} : insertion ∈ insertionsOf invalidationOf cut nodes ↔
    ∃ node ∈ nodes, insertion ∈ insertions invalidationOf cut node := by
  induction nodes with
  | nil => simp [insertionsOf]
  | cons node rest ih => simp [insertionsOf, ih]

/-! ### Success -/

theorem exists_updateEditsOf_invalidate (h : ∀ part ∈ nodes,
      ∃ edits, updateEdits source (.invalidate invalidationOf) r false part = .ok edits) :
    ∃ edits, updateEditsOf source (.invalidate invalidationOf) r false nodes = .ok edits := by
  induction nodes with
  | nil => exact ⟨[], by rw [updateEditsOf]⟩
  | cons node rest ih =>
    obtain ⟨first, hf⟩ := h node (.head _)
    obtain ⟨others, ho⟩ := ih fun part hp => h part (.tail _ hp)
    exact ⟨first ++ others, by rw [updateEditsOf_cons, hf, ho]; rfl⟩

/-- Telling of changes never fails. -/
theorem exists_updateEdits_invalidate (source : List Char) (invalidationOf : String → Option String) (r : Resolver)
    (node : Node) : ∃ edits, updateEdits source (.invalidate invalidationOf) r false node = .ok edits := by
  induction node using Node.inductionOnParts with
  | h node ih =>
    obtain ⟨edits, he⟩ := exists_updateEditsOf_invalidate ih
    cases hin : invalidation? invalidationOf node with
    | none =>
      refine ⟨edits, ?_⟩
      rw [updateEdits_of_keep (replacement_of_invalidation?_eq_none hin), substitute?_false]
      exact he
    | some invalidation =>
      have hr := replacement_of_invalidation?_eq_some hin
      exact ⟨_, (updateEdits_of_ofAll hr).trans (bind_eq_ok.mpr ⟨edits, he, rfl⟩)⟩

/-! ### What is written -/

/-- A tree is written with texts inserted. -/
def Inserts (source : List Char) (cut : Span) (invalidationOf : String → Option String) (r : Resolver)
    (node : Node) : Prop :=
  node.Laid source → InOrder source (insertions invalidationOf cut node) node.outset node.span.stop ∧
    rendered source cut (.invalidate invalidationOf) r false node =
      inserted source node.outset node.span.stop (insertions invalidationOf cut node)

theorem framed_eq_inserted (hp : ∀ part ∈ nodes, Inserts source cut invalidationOf r part)
    (hro : Row source nodes lo hi) (hlo : Boundary source lo) (hh : Boundary source hi) (hle : lo ≤ hi) :
    InOrder source (insertionsOf invalidationOf cut nodes) lo hi ∧
    framed source cut (.invalidate invalidationOf) r false lo hi nodes =
      inserted source lo hi (insertionsOf invalidationOf cut nodes) := by
  induction nodes generalizing lo with
  | nil =>
    rw [insertionsOf, framed]
    exact ⟨trivial, rfl⟩
  | cons node rest ih =>
    obtain ⟨hst, hs, hl, hre⟩ := row_cons.mp hro
    have hb := hl.boundaries
    have hou := hl.boundary_outset
    obtain ⟨ho, ht⟩ := hp node (.head _) hl
    obtain ⟨hr, hrt⟩ := ih (fun part hpa => hp part (.tail _ hpa)) hre hb.2.1 hs
    rw [insertionsOf, framed]
    refine ⟨(ho.mono hst (Nat.le_refl _)).append hr (by omega) hs, ?_⟩
    rw [ht, hrt, inserted_append (ho.mono hst (Nat.le_refl _)) hr hlo hb.2.1 hh
      (by omega) hs, ← nil_append (insertions invalidationOf cut node),
      inserted_append inOrder_nil ho hlo hou hb.2.1 hst (by omega), nil_append]
    rfl

theorem inserts (source : List Char) (cut : Span) (invalidationOf : String → Option String) (r : Resolver)
    (node : Node) : Inserts source cut invalidationOf r node := by
  induction node using Node.inductionOnParts with
  | h node ih =>
    intro hl
    obtain ⟨hst, hs, hou, hle⟩ := hl.boundaries
    cases hin : invalidation? invalidationOf node with
    | none =>
      rw [rendered_of_keep (replacement_of_invalidation?_eq_none hin), written?_false, insertions_of_none hin]
      exact framed_eq_inserted ih hl.row_parts hl.boundary_outset hs (Nat.le_trans hou hle)
    | some invalidation =>
      have hr := replacement_of_invalidation?_eq_some hin
      have hf := Node.outset_of_isReplaceable (isReplaceable_of_replacement hr nofun)
      have hro := hf ▸ hl.row_parts
      obtain ⟨ho, ht⟩ := framed_eq_inserted ih hro hst hs hle
      rw [rendered_of_ofAll hr, insertions_of_some hin, hf, fitted]
      split
      · have hc : InOrder source [(node.span.stop, (", " ++ invalidation ++ ")").toList)] node.span.stop
            node.span.stop := ⟨Nat.le_refl _, Nat.le_refl _, hs, inOrder_nil⟩
        refine ⟨⟨Nat.le_refl _, hle, hst, ho.append hc hle (Nat.le_refl _)⟩, ?_⟩
        rw [cons_append, inserted, inserted_append ho hc hst hs hs hle (Nat.le_refl _),
          ← ht, chars_self hst, inserted, inserted, chars_self hs]
        simp only [String.toList_append, String.toList_ofList, nil_append, append_nil, append_assoc]
        rfl
      · exact ⟨inOrder_nil, rfl⟩

/-! ### Which mutations are told of -/

/-- Texts are inserted in the cut only. -/
theorem insertions_within (hl : node.Laid source) :
    ∀ insertion ∈ insertions invalidationOf cut node, cut.start ≤ insertion.1 ∧ insertion.1 ≤ cut.stop := by
  induction node using Node.inductionOnParts with
  | h node ih =>
    have hpt : ∀ insertion ∈ insertionsOf invalidationOf cut node.parts,
        cut.start ≤ insertion.1 ∧ insertion.1 ≤ cut.stop := by
      intro insertion hm
      obtain ⟨part, hp, hm⟩ := mem_insertionsOf.mp hm
      exact ih part hp (hl.row_parts.laid_of_mem hp) insertion hm
    cases hin : invalidation? invalidationOf node with
    | none => rwa [insertions_of_none hin]
    | some invalidation =>
      rw [insertions_of_some hin]
      split
      · next hc =>
        obtain ⟨hf, hla⟩ := within_iff.mp hc
        have hle := hl.boundaries.2.2.2
        intro insertion hm
        simp only [cons_append, mem_cons, mem_append, not_mem_nil, or_false] at hm
        rcases hm with rfl | hm | rfl
        · exact ⟨hf, Nat.le_trans hle hla⟩
        · exact hpt insertion hm
        · exact ⟨Nat.le_trans hf hle, hla⟩
      · nofun

theorem wrapping_of_none (h : invalidation? invalidationOf node = none) : wrapping invalidationOf node = [] := by
  rw [wrapping, h]

theorem wrapping_of_some {invalidation : String} (h : invalidation? invalidationOf node = some invalidation) :
    wrapping invalidationOf node =
      [(node.span.start, ['(']), (node.span.stop, (", " ++ invalidation ++ ")").toList)] := by
  rw [wrapping, h]

theorem insertionsOf_perm (h : ∀ part ∈ nodes,
      (insertions invalidationOf cut part).Perm (part.nodes.flatMap (wrapping invalidationOf))) :
    (insertionsOf invalidationOf cut nodes).Perm ((Node.nodesOf nodes).flatMap (wrapping invalidationOf)) := by
  induction nodes with
  | nil =>
    rw [insertionsOf]
    exact List.Perm.refl _
  | cons node rest ih =>
    rw [insertionsOf, Node.nodesOf, flatMap_append]
    exact (h node (.head _)).append (ih fun part hp => h part (.tail _ hp))

/-- Where all mutations lie in the cut, each is wrapped, and none twice. -/
theorem insertions_perm
    (h : ∀ inner ∈ node.nodes, (invalidation? invalidationOf inner).isSome → inner.span.within cut) :
    (insertions invalidationOf cut node).Perm (node.nodes.flatMap (wrapping invalidationOf)) := by
  induction node using Node.inductionOnParts with
  | h node ih =>
    have hpt := insertionsOf_perm fun part hp => ih part hp fun inner hi1 =>
      h inner (Node.nodes_subset (Node.part_mem_nodes hp) hi1)
    rw [Node.nodes_eq, flatMap_cons]
    cases hin : invalidation? invalidationOf node with
    | none => rwa [insertions_of_none hin, wrapping_of_none hin]
    | some invalidation =>
      have hc := h node node.self_mem_nodes (by rw [hin]; rfl)
      rw [insertions_of_some hin, wrapping_of_some hin, if_pos hc, cons_append]
      exact (perm_append_comm.trans (hpt.cons _)).cons _

/-! ### Snippets -/

section

variable {code : String} {kind : SnippetKind} {snippet : Snippet} (hp : Snippet.parse code kind = .ok snippet)

include hp

theorem exists_updateMembers_invalidate (invalidationOf : String → Option String) (r : Resolver) :
    ∃ result, updateMembers code kind (.invalidate invalidationOf) r = .ok result := by
  obtain ⟨edits, he⟩ := exists_updateEdits_invalidate snippet.text invalidationOf r snippet.root
  rw [updateMembers_of_parse hp, he]
  exact ⟨_, rfl⟩

theorem within_user_of_invalidation? (ha : snippet.standsAlone kind) (hm : node ∈ snippet.root.nodes)
    (h : (invalidation? invalidationOf node).isSome) : node.span.within snippet.user := by
  obtain ⟨invalidation, hiv⟩ := Option.isSome_iff_exists.mp h
  exact Node.within_user hp ha hm (isReplaceable_of_replacement (replacement_of_invalidation?_eq_some hiv) nofun)

end

/-- **Telling of changes** always succeeds, and only inserts texts into a snippet, one behind the other. In a snippet
that stands alone these are an opening parenthesis in front of each mutation below a member that has an invalidation,
and the invalidation and a closing parenthesis behind it. The same holds of any snippet in which all such mutations lie;
if one reaches outside, it is left as it is, together with all that is inside of it. -/
theorem updateMembers_invalidate {code : String} {kind : SnippetKind} {snippet : Snippet}
    (invalidationOf : String → Option String) (r : Resolver) (hparse : Snippet.parse code kind = .ok snippet) :
    ∃ result, updateMembers code kind (.invalidate invalidationOf) r = .ok result ∧
      result.toList = inserted snippet.text snippet.user.start snippet.user.stop
        (insertions invalidationOf snippet.user snippet.root) ∧
      InOrder snippet.text (insertions invalidationOf snippet.user snippet.root) snippet.user.start snippet.user.stop ∧
      (snippet.standsAlone kind = true ∨ (∀ node ∈ snippet.root.nodes,
          (invalidation? invalidationOf node).isSome → node.span.within snippet.user) →
        (insertions invalidationOf snippet.user snippet.root).Perm
          (snippet.root.nodes.flatMap (wrapping invalidationOf))) := by
  obtain ⟨result, hre⟩ := exists_updateMembers_invalidate hparse invalidationOf r
  have hp : snippet.standsAlone kind = true ∨ (∀ node ∈ snippet.root.nodes,
        (invalidation? invalidationOf node).isSome → node.span.within snippet.user) →
      (insertions invalidationOf snippet.user snippet.root).Perm
        (snippet.root.nodes.flatMap (wrapping invalidationOf)) := by
    rintro (hal | hin)
    · exact insertions_perm fun node hm => within_user_of_invalidation? hparse hal hm
    · exact insertions_perm hin
  suffices ht : _ ∧ _ from ⟨_, hre, ht.1, ht.2, hp⟩
  have hl := (Snippet.of_parse hparse).1
  obtain ⟨hst, hs, hle⟩ := Snippet.boundaries hparse
  obtain ⟨hb, -, ha⟩ := Snippet.chars_of_parse hparse
  have hfi := boundary_zero snippet.text
  have hla := boundary_byteLength snippet.text
  have hro : Row snippet.text [snippet.root] 0 (Text.byteLength snippet.text) :=
    row_cons.mpr ⟨Nat.zero_le _, hl.boundaries.2.1.le_byteLength, hl, row_nil.mpr trivial⟩
  obtain ⟨ho, ht⟩ := framed_eq_inserted (fun part _ => inserts _ snippet.user invalidationOf r part) hro hfi
    hla (Nat.zero_le _)
  have hw := updateMembers_rendered hparse hre
  rw [Snippet.rendered, ht, insertionsOf, insertionsOf, append_nil] at hw
  rw [insertionsOf, insertionsOf, append_nil] at ho
  have hf := ho.within (insertions_within hl)
  rw [← append_nil (insertions _ _ _), inserted_append (hf.mono (Nat.zero_le _) (Nat.le_refl _)) inOrder_nil
      hfi hs hla (Nat.zero_le _) hs.le_byteLength, ← nil_append (insertions _ _ _),
    inserted_append inOrder_nil hf hfi hst hs (Nat.zero_le _) hle, inserted, inserted, hb, ha]
    at hw
  exact ⟨append_cancel_left (append_cancel_right hw), hf⟩

/-- A mutation inside the arguments of another one: both are wrapped, and nothing else is changed. -/
theorem updateMembers_invalidate_nested : ∃ snippet result,
    Snippet.parse "this.items.push(this.user.name = this.n = 1)" .expression = .ok snippet ∧
      snippet.standsAlone .expression = true ∧
      updateMembers "this.items.push(this.user.name = this.n = 1)" .expression
        (.invalidate fun member => some ("this." ++ member)) .unresolved = .ok result ∧
      result = "(this.items.push((this.user.name = this.n = 1, this.user)), this.items)" ∧
      (insertions (fun member => some ("this." ++ member)) snippet.user snippet.root).Perm
        (snippet.root.nodes.flatMap (wrapping fun member => some ("this." ++ member))) := by
  have hp : (Snippet.parse? "this.items.push(this.user.name = this.n = 1)" .expression).any (fun snippet =>
      snippet.standsAlone .expression) = true := by decide +kernel
  obtain ⟨snippet, hs, ha⟩ := Snippet.exists_parse_of_any hp
  obtain ⟨result, hr, -, -, hpe⟩ := updateMembers_invalidate (fun member => some ("this." ++ member)) .unresolved hs
  have hru : updateMembers "this.items.push(this.user.name = this.n = 1)" .expression
      (.invalidate fun member => some ("this." ++ member)) .unresolved =
        .ok "(this.items.push((this.user.name = this.n = 1, this.user)), this.items)" := by decide +kernel
  exact ⟨snippet, result, hs, ha, hr, Except.ok.inj (hr.symm.trans hru), hpe (.inl ha)⟩

/-- A mutation that lies in a snippet, inside of one that reaches outside: neither is wrapped. -/
theorem updateMembers_invalidate_reaches_out : ∃ snippet,
    Snippet.parse "0), this.items.push(this.user.name = 1" .expression = .ok snippet ∧
      updateMembers "0), this.items.push(this.user.name = 1" .expression
        (.invalidate fun member => some ("this." ++ member ++ " = this." ++ member)) .unresolved =
          .ok "0), this.items.push(this.user.name = 1" ∧
      ∃ node ∈ snippet.root.nodes, mutation? node = some (.nested "user" "name" .plain) ∧
        node.span.within snippet.user = true := by
  have hp : (Snippet.parse? "0), this.items.push(this.user.name = 1" .expression).any (fun snippet =>
      snippet.root.nodes.any fun node =>
        mutation? node == some (.nested "user" "name" .plain) && node.span.within snippet.user) = true := by
    decide +kernel
  obtain ⟨snippet, hs, ht⟩ := Snippet.exists_parse_of_any hp
  obtain ⟨node, hm, hn⟩ := any_eq_true.mp ht
  rw [Bool.and_eq_true, beq_iff_eq] at hn
  exact ⟨snippet, hs, by decide +kernel, node, hm, hn⟩

end Polyview
