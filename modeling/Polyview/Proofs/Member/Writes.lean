import Polyview.Proofs.Member.Failure

/-! # Writes of members

A member is written by an assignment, by an update, and by the call of a method that changes an array. What is assigned
may be a pattern with many targets, and between the member and the write there may be accesses, parentheses, `!` and
type annotations. `writes` lists all members that a node writes. A mutation is a write (`writes_of_mutation?`), but not
the other way round: patterns, `!` and annotations are not looked through.

A write that is a mutation is replaced by the call of a setter. Any other keeps its own text around its parts, and stays
in the code. -/

namespace Polyview

open List Script

/-! ### Definitions -/

/-- A node without parentheses and type annotations around it. -/
def Script.Node.bare : Node → Node
  | .mk .paren _ [inner] => inner.bare
  | .mk .chain _ [inner] => inner.bare
  | .mk .nonNull _ [inner] => inner.bare
  | .mk .asType _ (inner :: _) => inner.bare
  | .mk .satisfies _ (inner :: _) => inner.bare
  | .mk .typeAssertion _ [_, inner] => inner.bare
  | node => node

/-- The member that is written if a node is: the one that the node leads to through accesses, parentheses and type
annotations. -/
def writtenMember? : Node → Option String
  | .mk .paren _ [inner] => writtenMember? inner
  | .mk .chain _ [inner] => writtenMember? inner
  | .mk .nonNull _ [inner] => writtenMember? inner
  | .mk .asType _ (inner :: _) => writtenMember? inner
  | .mk .satisfies _ (inner :: _) => writtenMember? inner
  | .mk .typeAssertion _ [_, inner] => writtenMember? inner
  | .mk (.member name _) _ [object] => if isThis object.bare then some name else writtenMember? object
  | .mk (.index _) _ [object, _] => writtenMember? object
  | _ => none

mutual
/-- The members that assigning to a target writes. -/
def targetMembers : Node → List String
  | .mk .arrayPattern _ parts => targetMembersOf parts
  | .mk .objectPattern _ parts => targetMembersOf parts
  | .mk .restPattern _ parts => targetMembersOf parts
  | .mk .patternProperty _ [_, target] => targetMembers target
  | .mk .defaultPattern _ (target :: _) => targetMembers target
  | target => (writtenMember? target).toList

/-- The members that assigning to targets writes. -/
def targetMembersOf : List Node → List String
  | [] => []
  | target :: rest => targetMembers target ++ targetMembersOf rest
end

/-- The members that the call of a callee writes. -/
def calleeMembers (callee : Node) : List String :=
  match callee.bare with
  | .mk (.member name _) _ [object] => if mutatingMethods.contains name then (writtenMember? object).toList else []
  | _ => []

/-- The members that a node writes. -/
def writes : Node → List String
  | .mk (.assign _) _ [target, _] => targetMembers target
  | .mk (.update _ _) _ [target] => targetMembers target
  | .mk (.call _) _ (callee :: _) => calleeMembers callee
  | _ => []

variable {source : List Char} {cut : Span} {setterOf : String → Option String} {r : Resolver} {resolving : Bool}
  {node : Node} {mutation : Mutation} {member : String}

/-! ### Mutations are writes -/

theorem bare_of_isThis (h : isThis node) : node.bare = node := by
  rcases node with ⟨shape, span, parts⟩
  obtain rfl : shape = .this := by simpa [isThis, Node.shape] using h
  rfl

theorem bare_of_rootMember? (h : rootMember? node = some member) : node.bare = node := by
  unfold rootMember? at h
  split at h
  · rfl
  · rfl
  · cases h

theorem writtenMember?_of_rootMember? (h : rootMember? node = some member) : writtenMember? node = some member := by
  fun_induction rootMember? node with
  | case1 name optional span object ht => rw [writtenMember?, bare_of_isThis ht, if_pos ht, h]
  | case2 name optional span object ht ih => rw [writtenMember?, bare_of_rootMember? h, if_neg ht, ih h]
  | case3 optional span object index ih => rw [writtenMember?, ih h]
  | case4 => cases h

theorem rootMember?_of_thisMember? (h : thisMember? node = some member) : rootMember? node = some member := by
  unfold thisMember? at h
  split at h
  · split at h
    · next ht => rw [rootMember?, if_pos ht, h]
    · cases h
  · cases h

theorem rootMember?_of_targetMutation? {op : AssignOp} (h : targetMutation? op node = some mutation) :
    rootMember? node = some mutation.member := by
  unfold targetMutation? at h
  split at h
  · next name optional span object =>
    rw [rootMember?]
    split at h
    · next ht =>
      cases h
      rw [if_pos ht, Mutation.member]
    · next ht =>
      rw [if_neg ht]
      split at h
      · next hm =>
        cases h
        exact rootMember?_of_thisMember? hm
      · obtain ⟨member, hm, rfl⟩ := Option.map_eq_some_iff.mp h
        exact hm
  · obtain ⟨member, hm, rfl⟩ := Option.map_eq_some_iff.mp h
    exact hm
  · cases h

theorem targetMembers_of_rootMember? (h : rootMember? node = some member) : targetMembers node = [member] := by
  have hm := writtenMember?_of_rootMember? h
  unfold rootMember? at h
  split at h
  · rw [targetMembers, hm, Option.toList_some] <;> simp
  · rw [targetMembers, hm, Option.toList_some] <;> simp
  · cases h

theorem calleeMembers_of_callMutation? (h : callMutation? node = some mutation) :
    calleeMembers node = [mutation.member] := by
  unfold callMutation? at h
  split at h
  · next name optional span object =>
    split at h
    · next hme =>
      obtain ⟨member, hmb, rfl⟩ := Option.map_eq_some_iff.mp h
      have hm : calleeMembers (.mk (.member name optional) span [object]) =
          if mutatingMethods.contains name then (writtenMember? object).toList else [] := rfl
      rw [hm, if_pos hme, writtenMember?_of_rootMember? hmb, Option.toList_some, Mutation.member]
    · cases h
  · cases h

/-- **A mutation is a write** of its member and of no other. -/
theorem writes_of_mutation? (h : mutation? node = some mutation) : writes node = [mutation.member] := by
  unfold mutation? at h
  split at h
  · exact targetMembers_of_rootMember? (rootMember?_of_targetMutation? h)
  · exact targetMembers_of_rootMember? (rootMember?_of_targetMutation? h)
  · exact calleeMembers_of_callMutation? h
  · cases h

/-! ### Writes that stay -/

theorem isReplaceable_of_writes (h : writes node ≠ []) : node.shape.isReplaceable := by
  unfold writes at h
  split at h
  · rfl
  · rfl
  · rfl
  · exact (h rfl).elim

theorem isQuiet_of_writes (h : writes node ≠ []) : node.isQuiet = false := by
  unfold writes at h
  split at h
  · rfl
  · rfl
  · rfl
  · exact (h rfl).elim

/-- Nothing is emitted by a write. -/
theorem emitter?_of_calleeMembers (h : calleeMembers node ≠ []) : emitter? node = none := by
  unfold emitter?
  split
  · split
    · next hn =>
      obtain rfl := eq_of_beq hn
      exact (h rfl).elim
    · rfl
  · rfl

/-- No text is put in the place of a write that is kept. -/
theorem written?_of_writes {style : UpdateStyle} (h : writes node ≠ []) :
    written? source cut style r resolving node = none := by
  unfold writes at h
  split at h
  · rw [written?_of_not_call (by simp [Node.shape])]
    cases resolving <;> rfl
  · rw [written?_of_not_call (by simp [Node.shape])]
    cases resolving <;> rfl
  · rw [written?_call, emitter?_of_calleeMembers h]
    cases resolving <;> rfl
  · exact (h rfl).elim

/-- A write that is no mutation keeps its own text. -/
theorem rendered_of_writes (h : writes node ≠ []) (hm : setterMutation? setterOf node = none) :
    rendered source cut (.setter setterOf) r resolving node =
      framed source cut (.setter setterOf) r resolving node.span.start node.span.stop node.parts := by
  rw [rendered_of_keep (replacement_of_setterMutation?_eq_none hm), written?_of_writes h,
    Node.outset_of_isReplaceable (isReplaceable_of_writes h)]

/-- Where there are no mutations, and members are not resolved, all text stays. -/
theorem rendered_of_no_mutation (hl : node.Laid source)
    (h : ∀ inner ∈ node.nodes, setterMutation? setterOf inner = none) :
    rendered source cut (.setter setterOf) r false node = (Span.mk node.outset node.span.stop).chars source := by
  have he : updateEdits source (.setter setterOf) r false node = .ok [] :=
    updateEdits_of_no_mutation fun inner hm => replacement_of_setterMutation?_eq_none (h inner hm)
  exact (renders source cut _ r node false [] hl nofun he).symm

/-! ### Snippets -/

/-- **What becomes of writes.** An update by setters fails only with the error of a mutation. If it succeeds, every
write of a member with a setter that it comes to is written as the call of the setter if it is a mutation. Any other
write keeps its own text around what its parts are written as; if there is no mutation inside of it and members are not
resolved, it is copied. This stands in the result, unless it is handed to an event. In a snippet that stands alone the
update comes to all writes, except for those in type arguments of events. -/
theorem setter_update_writes {code : String} {kind : SnippetKind} {snippet : Snippet}
    (setterOf : String → Option String) (r : Resolver) (hparse : Snippet.parse code kind = .ok snippet) :
    (∀ error, updateMembers code kind (.setter setterOf) r = .error error →
      error.kind = "UnsupportedConstruct" ∧ error.code.text = "TSR305") ∧
    ∀ result, updateMembers code kind (.setter setterOf) r = .ok result → (∀ resolving node member setter,
        Reaches snippet.text snippet.user setterOf r true false snippet.root resolving node →
        member ∈ writes node → setterOf member = some setter →
          (∀ mutation, mutation? node = some mutation → node.span.within snippet.user = true →
            mutation.member = member ∧ ∃ param ∉ references node,
              rendered snippet.text snippet.user (.setter setterOf) r resolving node =
                mutation.call setter param (mutation.innerText snippet.text snippet.user setterOf r node)) ∧
          (mutation? node = none → rendered snippet.text snippet.user (.setter setterOf) r resolving node =
              framed snippet.text snippet.user (.setter setterOf) r resolving node.span.start node.span.stop
                node.parts) ∧
          ((∀ inner ∈ node.nodes, setterMutation? setterOf inner = none) → resolving = false →
            rendered snippet.text snippet.user (.setter setterOf) r resolving node = node.span.chars snippet.text)) ∧
      (∀ resolving node, Reaches snippet.text snippet.user setterOf r false false snippet.root resolving node →
        rendered snippet.text snippet.user (.setter setterOf) r resolving node <:+:
          kind.before ++ result.toList ++ kind.after) ∧
      (snippet.standsAlone kind = true → (∀ node ∈ snippet.root.nodes, isTypedEvent node = false) →
        ∀ node ∈ snippet.root.nodes, writes node ≠ [] → node.span.within snippet.user = true ∧
            ∃ resolving, Reaches snippet.text snippet.user setterOf r true false snippet.root resolving node ∧
              ((∀ event arguments, r.emit event arguments = none) →
                Reaches snippet.text snippet.user setterOf r false false snippet.root resolving node)) := by
  refine ⟨fun error he => code_of_updateMembers_error hparse he, fun result ho => ⟨?_, ?_, ?_⟩⟩
  · intro resolving node member setter hre hme hs
    have hw : writes node ≠ [] := ne_nil_of_mem hme
    have hu := hre.updated (.of_updateMembers hparse ho)
    refine ⟨fun mutation hm hc => ?_, fun hn => ?_, fun hk hr => ?_⟩
    · obtain rfl : member = mutation.member := by simpa [writes_of_mutation? hm] using hme
      have he := hu.error?_eq_none (setterMutation?_eq_some.mpr ⟨hm, setter, hs⟩)
      exact ⟨rfl, rendered_of_mutation? hm hs he hc⟩
    · refine rendered_of_writes hw ?_
      rw [setterMutation?, hn, Option.filter_none]
    · subst hr
      rw [rendered_of_no_mutation hu.laid hk, Node.outset_of_isReplaceable (isReplaceable_of_writes hw)]
  · exact fun resolving node h => h.infix_result hparse ho
  · intro ha hp node hme hw
    obtain ⟨resolving, h⟩ := reaches_of_standsAlone hparse ho ha hp hme (isQuiet_of_writes hw)
    exact ⟨Node.within_user hparse ha hme (isReplaceable_of_writes hw), resolving, h, fun hem => h.of_emit hem⟩

/-- An update in place with a mutation in its index: both become calls of setters. -/
theorem setter_update_writes_index : ∃ snippet result node mutation,
    Snippet.parse "this.items[this.count++] = 1" .expression = .ok snippet ∧
      updateMembers "this.items[this.count++] = 1" .expression (.setter fun member => some ("set_" ++ member))
        ⟨some, fun _ _ => none⟩ = .ok result ∧
      node ∈ snippet.root.nodes ∧ "items" ∈ writes node ∧ mutation? node = some mutation ∧
      ∃ param ∉ references node, mutation.call "set_items" param (mutation.innerText snippet.text snippet.user
            (fun member => some ("set_" ++ member)) ⟨some, fun _ _ => none⟩ node) <:+:
          SnippetKind.expression.before ++ result.toList ++ SnippetKind.expression.after := by
  have ht : (Snippet.parse? "this.items[this.count++] = 1" .expression).any (fun snippet =>
      snippet.standsAlone .expression && (snippet.root.nodes.all fun node => !isTypedEvent node) &&
        snippet.root.nodes.any fun node =>
          mutation? node == some (.inPlace "items") && "items" ∈ writes node) = true := by
    decide +kernel
  obtain ⟨snippet, hp, ht⟩ := Snippet.exists_parse_of_any ht
  have ho : updateMembers "this.items[this.count++] = 1" .expression (.setter fun member => some ("set_" ++ member))
      ⟨some, fun _ _ => none⟩ =
        .ok "set_items(items => \x7b items[set_count(count => count + 1)] = 1; return items; \x7d)" := by
    decide +kernel
  simp only [Bool.and_eq_true, all_eq_true, any_eq_true, Bool.not_eq_true', decide_eq_true_eq, beq_iff_eq] at ht
  obtain ⟨⟨ha, hpl⟩, node, hme, hm, hw⟩ := ht
  obtain ⟨hf, hs, hr⟩ := (setter_update_writes _ _ hp).2 _ ho
  obtain ⟨hc, resolving, hre, hi⟩ := hr ha hpl node hme (ne_nil_of_mem hw)
  obtain ⟨-, param, hpa, hte⟩ := (hf _ _ _ _ hre hw rfl).1 _ hm hc
  exact ⟨snippet, _, node, _, hp, ho, hme, hw, hm, param, hpa, hte ▸ hs _ _ (hi fun _ _ => rfl)⟩

/-- **A write that stays:** behind `!` the call of `push` is no mutation, and the code is left as it is. -/
theorem setter_update_keeps_write : ∃ snippet, updateMembers "this.items!.push(1);" .statements
        (.setter fun member => if member == "items" then some "setItems" else none)
        ⟨fun member => if member == "items" then some "items" else none, fun _ _ => none⟩ =
      .ok "this.items!.push(1);" ∧
    Snippet.parse "this.items!.push(1);" .statements = .ok snippet ∧
    ∃ node ∈ snippet.root.nodes, writes node = ["items"] ∧ mutation? node = none := by
  have ht : (Snippet.parse? "this.items!.push(1);" .statements).any (fun snippet =>
      snippet.root.nodes.any fun node => writes node == ["items"] && mutation? node == none) = true := by
    decide +kernel
  obtain ⟨snippet, hp, ht⟩ := Snippet.exists_parse_of_any ht
  obtain ⟨node, hm, hn⟩ := any_eq_true.mp ht
  exact ⟨snippet, by decide +kernel, hp, node, hm, by simpa using hn⟩

end Polyview
