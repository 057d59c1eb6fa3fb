import Polyview.Member.Update
import Polyview.Proofs.Script.Place

/-! # How a node is updated

`updateEdits` has its own rules for assignments, updates and calls. Seen from their replacements all nodes
follow the same four rules: a mutation that cannot be written fails, others are replaced by a text around
their value or around all of their parts, and a node that is kept is either substituted as a whole or left to
its parts. -/

namespace Polyview

open Script

variable {source : List Char} {style : UpdateStyle} {r : Resolver} {resolving : Bool} {node : Node}
  {nodes : List Node} {edits : List Edit} {error : Error} {rest : List Node} {α β : Type} {x : Except Error α}

/-! ### Results -/

theorem bind_eq_ok {f : α → Except Error β} {b : β} : x >>= f = .ok b ↔ ∃ a, x = .ok a ∧ f a = .ok b := by
  cases x <;> simp [bind, Except.bind]

theorem bind_eq_error {f : α → Except Error β} :
    x >>= f = .error error ↔ x = .error error ∨ ∃ a, x = .ok a ∧ f a = .error error := by
  cases x <;> simp [bind, Except.bind]

theorem map_eq_ok {f : α → β} {b : β} : f <$> x = .ok b ↔ ∃ a, x = .ok a ∧ f a = b := by
  cases x <;> simp [Functor.map, Except.map]

theorem map_eq_error {f : α → β} : f <$> x = .error error ↔ x = .error error := by
  cases x <;> simp [Functor.map, Except.map]

theorem updateMembers_of_parse {code : String} {kind : SnippetKind} {snippet : Snippet}
    (h : Snippet.parse code kind = .ok snippet) : updateMembers code kind style r =
      (fun edits => String.ofList (splice snippet.text snippet.user edits)) <$>
        updateEdits snippet.text style r false snippet.root := by
  rw [updateMembers, h, map_eq_pure_bind]
  rfl

/-! ### Kept nodes -/

section

variable (source : List Char) (style : UpdateStyle) (r : Resolver)

/-- What is written for a node that is kept, where members are resolved: for a member that is read, and for
an event that is emitted. -/
def substitute? (resolving : Bool) : Node → Except Error (Option String)
  | .mk (.call _) _ (callee :: rest) =>
    match if resolving then emitter? callee else none with
    | some member => do
      let edits ← argumentUpdates source style r resolving rest
      return r.emit member (renderArguments source (argumentsOf rest) edits)
    | none => .ok none
  | node => .ok (if resolving then (thisMember? node).bind r.read else none)

/-- The value of an assignment as it is written, and `1` for an update. -/
def valueText : Node → Except Error (List Char)
  | .mk (.assign _) _ [_, value] => splice source value.span <$> updateEdits source style r style.resolvesReads value
  | _ => .ok ['1']

end

theorem updateEditsOf_cons : updateEditsOf source style r resolving (node :: rest) = do
    return (← updateEdits source style r resolving node) ++ (← updateEditsOf source style r resolving rest) := by
  rw [updateEditsOf]

theorem updateEditsOf_singleton :
    updateEditsOf source style r resolving [node] = updateEdits source style r resolving node := by
  rw [updateEditsOf, updateEditsOf]
  cases updateEdits source style r resolving node <;> simp [bind, Except.bind, pure, Except.pure]

theorem updateEditsOf_pair {other : Node} : updateEditsOf source style r resolving [node, other] = do
    return (← updateEdits source style r resolving node) ++ (← updateEdits source style r resolving other) := by
  rw [updateEditsOf_cons, updateEditsOf_singleton]

theorem updateEditsOf_eq_nil (h : ∀ part ∈ nodes, updateEdits source style r resolving part = .ok []) :
    updateEditsOf source style r resolving nodes = .ok [] := by
  induction nodes with
  | nil => rw [updateEditsOf]
  | cons node rest ih =>
    rw [updateEditsOf_cons, h node (.head _), ih fun part hp => h part (.tail _ hp)]
    rfl

/-- Outside of replacements nothing is substituted. -/
theorem substitute?_false : substitute? source style r false node = .ok none := by
  unfold substitute?
  split <;> rfl

/-! ### Forms of nodes -/

/-- The forms of nodes that are told apart: those that may be mutations, and all others. -/
inductive UpdateForm : Node → Prop
  | assign (op : AssignOp) (span : Span) (target value : Node) : UpdateForm (.mk (.assign op) span [target, value])
  | update (increment before : Bool) (span : Span) (target : Node) :
    UpdateForm (.mk (.update increment before) span [target])
  | call (optional : Bool) (span : Span) (callee : Node) (rest : List Node) :
    UpdateForm (.mk (.call optional) span (callee :: rest))
  | other {node : Node} (mutates : mutation? node = none)
    (edits : ∀ source style r resolving, updateEdits source style r resolving node =
      match if resolving then (thisMember? node).bind r.read else none with
      | some text => .ok [.of node.span text]
      | none => updateEditsOf source style r resolving node.parts)
    (substituted : ∀ source style r resolving, substitute? source style r resolving node =
      .ok (if resolving then (thisMember? node).bind r.read else none)) : UpdateForm node

/-- A node is a call with its callee, or it is not. -/
theorem call_or_not (node : Node) : (∃ optional span callee rest, node = .mk (.call optional) span (callee :: rest)) ∨
    ∀ optional callee rest, node.shape = .call optional → node.parts = callee :: rest → False := by
  rcases node with ⟨shape, span, _ | ⟨callee, rest⟩⟩
  · exact .inr nofun
  cases shape with
  | call optional => exact .inl ⟨_, _, _, _, rfl⟩
  | _ => exact .inr nofun

theorem updateForm : (node : Node) → UpdateForm node
  | .mk shape span parts => by
    by_cases ha : ∃ op target value, shape = .assign op ∧ parts = [target, value]
    · obtain ⟨op, target, value, rfl, rfl⟩ := ha
      exact .assign op span target value
    by_cases hu : ∃ increment before target, shape = .update increment before ∧ parts = [target]
    · obtain ⟨increment, before, target, rfl, rfl⟩ := hu
      exact .update increment before span target
    rcases call_or_not (.mk shape span parts) with ⟨optional, span, callee, rest, hc⟩ | hn
    · exact hc ▸ .call optional span callee rest
    have hna : ∀ op target value, shape = .assign op → parts = [target, value] → False :=
      fun op target value hs hp => ha ⟨op, target, value, hs, hp⟩
    have hnu : ∀ increment before target, shape = .update increment before → parts = [target] → False :=
      fun increment before target hs hp => hu ⟨increment, before, target, hs, hp⟩
    refine .other ?_ (fun source style r resolving => ?_) fun source style r resolving => ?_
    · unfold mutation?
      split
      · next h => cases h; exact (hna _ _ _ rfl rfl).elim
      · next h => cases h; exact (hnu _ _ _ rfl rfl).elim
      · next h => cases h; exact (hn _ _ _ rfl rfl).elim
      · rfl
    · exact updateEdits.eq_4 source style r resolving shape span parts hna hnu hn
    · unfold substitute?
      split
      · next h => cases h; exact (hn _ _ _ rfl rfl).elim
      · rfl

theorem replacement_of_mutation?_eq_none (h : mutation? node = none) : style.replacement node = .keep := by
  rw [UpdateStyle.replacement, h]

/-- A call that changes a member changes it in place. -/
theorem mutation?_call {optional : Bool} {span : Span} {callee : Node} {mutation : Mutation}
    (h : mutation? (.mk (.call optional) span (callee :: rest)) = some mutation) :
    ∃ member, mutation = .inPlace member := by
  rw [mutation?] at h
  unfold callMutation? at h
  split at h
  · split at h
    · obtain ⟨member, -, rfl⟩ := Option.map_eq_some_iff.mp h
      exact ⟨member, rfl⟩
    · cases h
  · cases h

theorem replacement_call_ne_ofValue {optional : Bool} {span : Span} {callee : Node}
    {render : List Char → Except Error String}
    (h : style.replacement (.mk (.call optional) span (callee :: rest)) = .ofValue render) : False := by
  unfold UpdateStyle.replacement at h
  split at h
  · cases h
  · next mutation hm =>
    obtain ⟨member, rfl⟩ := mutation?_call hm
    cases style with
    | setter setterOf =>
      dsimp only at h
      split at h
      · rw [setterCall] at h
        split at h <;> cases h
      · cases h
    | invalidate invalidationOf =>
      dsimp only at h
      split at h <;> cases h

/-! ### The four rules -/

theorem updateEdits_of_fail (h : style.replacement node = .fail error) :
    updateEdits source style r resolving node = .error error := by
  cases updateForm node with
  | assign op span target value => rw [updateEdits, h]
  | update increment before span target => rw [updateEdits, h]
  | call optional span callee rest => rw [updateEdits, h]
  | other mutates => rw [replacement_of_mutation?_eq_none mutates] at h; cases h

theorem updateEdits_of_ofAll {render : List Char → String} (h : style.replacement node = .ofAll render) :
    updateEdits source style r resolving node = do
      let edits ← updateEditsOf source style r style.resolvesReads node.parts
      return [.of node.span (render (splice source node.span edits))] := by
  cases updateForm node with
  | assign op span target value =>
    rw [updateEdits, h, Node.parts, updateEditsOf_pair, Node.span]
    simp only [bind_assoc, pure_bind]
  | update increment before span target => rw [updateEdits, h, Node.parts, updateEditsOf_singleton, Node.span]
  | call optional span callee rest =>
    rw [updateEdits, h, Node.parts, updateEditsOf_cons, Node.span]
    simp only [bind_assoc, pure_bind]
  | other mutates => rw [replacement_of_mutation?_eq_none mutates] at h; cases h

/-- Only assignments and updates are replaced by a text around their value. -/
theorem updateEdits_of_ofValue {render : List Char → Except Error String}
    (h : style.replacement node = .ofValue render) : updateEdits source style r resolving node = do
      return [.of node.span (← render (← valueText source style r node))] := by
  cases updateForm node with
  | assign op span target value =>
    rw [updateEdits, h, valueText, Node.span]
    simp only [map_eq_pure_bind, bind_assoc, pure_bind]
  | update increment before span target =>
    rw [updateEdits, h]
    rfl
  | call optional span callee rest => exact (replacement_call_ne_ofValue h).elim
  | other mutates => rw [replacement_of_mutation?_eq_none mutates] at h; cases h

theorem updateEdits_of_keep (h : style.replacement node = .keep) : updateEdits source style r resolving node =
      (do match ← substitute? source style r resolving node with
          | some text => return [.of node.span text]
          | none => updateEditsOf source style r resolving node.parts) := by
  cases updateForm node with
  | assign op span target value =>
    rw [updateEdits, h, substitute?, Node.parts, updateEditsOf_pair]
    · cases resolving <;> rfl
    · simp
  | update increment before span target =>
    rw [updateEdits, h, substitute?, Node.parts, updateEditsOf_singleton]
    · cases resolving <;> rfl
    · simp
  | call optional span callee rest =>
    rw [updateEdits, h, substitute?, Node.parts, updateEditsOf_cons, Node.span]
    dsimp only
    generalize (if resolving = true then emitter? callee else none) = emitter
    cases emitter with
    | none => rfl
    | some member => cases argumentUpdates source style r resolving rest <;> rfl
  | other mutates edits substituted =>
    rw [edits, substituted]
    rfl

end Polyview
