import Polyview.Proofs.Member.Parameter
import Polyview.Proofs.Member.Rendering

/-! # Updates by setters

In the style of setters a mutation of a member with a setter becomes a call of the setter. An assignment of the
member or of one of its properties is written around its value, and an update in place around the whole mutation;
inside of either, members are resolved. `Reaches` tells which nodes the update comes to on its way, and whether
members are resolved there. If the whole update succeeds, so does that of each of them (`Reaches.updated`), and what
it is written as stands in the whole (`Reaches.isInfix`). The nodes that are not come to are accesses, unless an event
is emitted with type arguments (`reaches_of_mem`). -/

namespace Polyview

open List Script Option

variable {op : AssignOp} {referenced : List String} {setter text : String} {span : Span} {style : UpdateStyle}

/-- The mutation that a node is, if its member has a setter. -/
def setterMutation? (setterOf : String → Option String) (node : Node) : Option Mutation :=
  (mutation? node).filter fun mutation => (setterOf mutation.member).isSome

/-- The variables that the parts of a node refer to. -/
def references (node : Node) : List String := (Node.nodesOf node.parts).filterMap Node.referenceName?

/-- Whether a mutation is written around its value. -/
def Mutation.hasValue : Mutation → Bool
  | .whole .. => true
  | .nested .. => true
  | _ => false

/-- What stands around the text of a mutation in the call of a setter. -/
def Mutation.updater (param : String) : Mutation → String × String
  | .whole _ .plain => ("", "")
  | .whole _ (.binary op) => (param ++ " => " ++ param ++ " " ++ op ++ " ", "")
  | .nested _ property .plain => (param ++ " => (\x7b ..." ++ param ++ ", " ++ property ++ ": ", " \x7d)")
  | .nested _ property (.binary op) =>
    (param ++ " => (\x7b ..." ++ param ++ ", " ++ property ++ ": " ++ param ++ "." ++ property ++ " " ++ op ++ " ",
      " \x7d)")
  | .inPlace _ => (param ++ " => \x7b ", "; return " ++ param ++ "; \x7d")
  | _ => ("", "")

/-- The call of a setter for a mutation, around the text of its value or of all of it. -/
def Mutation.call (setter param : String) (mutation : Mutation) (text : List Char) : List Char :=
  (setter ++ "(" ++ (mutation.updater param).1).toList ++ text ++ ((mutation.updater param).2 ++ ")").toList

/-- Why a mutation cannot be written as the call of a setter: it may not happen, it is too far below the member, or
it refers to a variable with the name of the member. -/
def Mutation.error? (referenced : List String) : Mutation → Option Error
  | .whole member (.logical _) => some (logicalError member)
  | .nested member _ (.logical _) => some (logicalError member)
  | .deep member => some (deepError member)
  | .inPlace member => if referenced.contains member then some (shadowError member) else none
  | _ => none

/-- Why a node cannot be written in the style of setters. -/
def blockage? (setterOf : String → Option String) (node : Node) : Option Error :=
  (setterMutation? setterOf node).bind (Mutation.error? (references node))

variable {source : List Char} {cut : Span} {setterOf : String → Option String} {r : Resolver}
  {resolving resolving' events : Bool} {node part inner : Node} {nodes : List Node} {mutation : Mutation}

/-! ### Replacements -/

theorem replacement_of_setterMutation?_eq_none (h : setterMutation? setterOf node = none) :
    (UpdateStyle.setter setterOf).replacement node = .keep := by
  rw [setterMutation?] at h
  unfold UpdateStyle.replacement
  cases hm : mutation? node with
  | none => rfl
  | some mutation =>
    rw [hm, filter_some] at h
    cases hs : setterOf mutation.member with
    | none => simp only [hs]
    | some setter => simp [hs] at h

theorem setterMutation?_eq_some : setterMutation? setterOf node = some mutation ↔
    mutation? node = some mutation ∧ ∃ setter, setterOf mutation.member = some setter := by
  rw [setterMutation?, filter_eq_some_iff, isSome_iff_exists]

theorem replacement_of_setterMutation?_eq_some (h : mutation? node = some mutation)
    (hs : setterOf mutation.member = some setter) :
    (UpdateStyle.setter setterOf).replacement node = setterCall setter (references node) mutation := by
  unfold UpdateStyle.replacement
  rw [h]
  dsimp only
  rw [hs]
  rfl

theorem blockage?_of_setterMutation?_eq_none (h : setterMutation? setterOf node = none) :
    blockage? setterOf node = none := by
  rw [blockage?, h]
  rfl

/-- A mutation that is written around its value is an assignment or an update. -/
theorem form_of_hasValue (h : mutation? node = some mutation) (hv : mutation.hasValue) :
    (∃ op span target value, node = .mk (.assign op) span [target, value]) ∨
      ∃ increment before span target, node = .mk (.update increment before) span [target] := by
  cases updateForm node with
  | assign op span target value => exact .inl ⟨op, span, target, value, rfl⟩
  | update increment before span target => exact .inr ⟨increment, before, span, target, rfl⟩
  | call optional span callee rest =>
    obtain ⟨member, rfl⟩ := mutation?_call h
    cases hv
  | other mutates => rw [mutates] at h; cases h

/-! ### Calls of setters -/

/-- A mutation that is blocked is not written. -/
theorem setterCall_of_error? {error : Error} (h : mutation.error? referenced = some error) :
    setterCall setter referenced mutation = .fail error ∨ mutation.hasValue ∧
        ∃ render, setterCall setter referenced mutation = .ofValue render ∧ ∀ value, render value = .error error := by
  unfold Mutation.error? at h
  split at h
  · cases h
    exact .inl rfl
  · cases h
    exact .inr ⟨rfl, _, rfl, fun value => rfl⟩
  · cases h
    exact .inl rfl
  · next member =>
    split at h
    · next hm =>
      cases h
      rw [setterCall, if_pos hm]
      exact .inl rfl
    · cases h
  · cases h

theorem infix_call (setter param : String) (mutation : Mutation) (text : List Char) :
    text <:+: mutation.call setter param text := by
  rw [Mutation.call]
  exact infix_append ..

/-- An assignment is written around its value. -/
theorem setterCall_of_hasValue (hv : mutation.hasValue) (h : mutation.error? referenced = none) :
    ∃ render : List Char → String, setterCall setter referenced mutation = .ofValue (fun value => .ok (render value)) ∧
      ∀ value, ∃ param ∉ referenced, (render value).toList = mutation.call setter param value := by
  have hp (member : String) (value : List Char) := updaterParam_notMem member referenced value
  cases mutation with
  | whole member op =>
    cases op with
    | logical symbol => cases h
    | _ => exact ⟨_, rfl, fun value => ⟨_, hp member value, by simp [Mutation.call, Mutation.updater]⟩⟩
  | nested member property op =>
    cases op with
    | logical symbol => cases h
    | _ => exact ⟨_, rfl, fun value => ⟨_, hp member value, by simp [Mutation.call, Mutation.updater]⟩⟩
  | deep member => cases hv
  | inPlace member => cases hv

/-- An update in place is written around the whole of it. -/
theorem setterCall_inPlace {member : String} (h : (Mutation.inPlace member).error? referenced = none) :
    ∃ render, setterCall setter referenced (.inPlace member) = .ofAll render ∧ member ∉ referenced ∧
      ∀ all, (render all).toList = (Mutation.inPlace member).call setter member all := by
  rw [Mutation.error?] at h
  rw [setterCall]
  split
  · next hm =>
    rw [if_pos hm] at h
    cases h
  · next hm => exact ⟨_, rfl, by simpa using hm, fun all => by simp [Mutation.call, Mutation.updater]⟩

theorem eq_inPlace_of_not_hasValue (hv : mutation.hasValue = false) (h : mutation.error? referenced = none) :
    ∃ member, mutation = .inPlace member := by
  cases mutation with
  | inPlace member => exact ⟨member, rfl⟩
  | deep member => cases h
  | _ => cases hv

/-! ### Nodes that are come to -/

/-- A node is come to from another one. `events` tells whether the way may lead through the arguments of an event
that is emitted; these are handed to the resolver, which writes the event. A way ends at nodes that are to be
replaced and reach outside of the cut. -/
inductive Reaches (source : List Char) (cut : Span) (setterOf : String → Option String) (r : Resolver)
    (events : Bool) : Bool → Node → Bool → Node → Prop
  | self {resolving : Bool} {node : Node} : Reaches source cut setterOf r events resolving node resolving node
  /-- A node that keeps its own text. -/
  | part {resolving resolving' : Bool} {node part inner : Node} (hkept : setterMutation? setterOf node = none)
    (hown : written? source cut (.setter setterOf) r resolving node = none) (hpart : part ∈ node.parts)
    (h : Reaches source cut setterOf r events resolving part resolving' inner) :
    Reaches source cut setterOf r events resolving node resolving' inner
  /-- The value of an assignment. -/
  | value {resolving resolving' : Bool} {op : AssignOp} {span : Span} {target value inner : Node}
    {mutation : Mutation} (hmutation : setterMutation? setterOf (.mk (.assign op) span [target, value]) = some mutation)
    (hvalue : mutation.hasValue = true) (hcut : span.within cut = true)
    (h : Reaches source cut setterOf r events true value resolving' inner) :
    Reaches source cut setterOf r events resolving (.mk (.assign op) span [target, value]) resolving' inner
  /-- An update in place. -/
  | inPlace {resolving resolving' : Bool} {node part inner : Node} {member : String}
    (hmutation : setterMutation? setterOf node = some (.inPlace member)) (hcut : node.span.within cut = true)
    (hpart : part ∈ node.parts) (h : Reaches source cut setterOf r events true part resolving' inner) :
    Reaches source cut setterOf r events resolving node resolving' inner
  /-- The arguments of an event. -/
  | argument {resolving resolving' : Bool} {node part inner : Node} {text : String} (hevents : events = true)
    (hkept : setterMutation? setterOf node = none)
    (hwritten : written? source cut (.setter setterOf) r resolving node = some text)
    (hpart : part ∈ argumentsOf node.parts.tail)
    (h : Reaches source cut setterOf r events resolving part resolving' inner) :
    Reaches source cut setterOf r events resolving node resolving' inner

/-- What is come to is part of the tree. -/
theorem Reaches.mem_nodes (h : Reaches source cut setterOf r events resolving node resolving' inner) :
    inner ∈ node.nodes := by
  induction h with
  | self => exact Node.self_mem_nodes _
  | part _ _ hp _ ih => exact Node.nodes_subset (Node.part_mem_nodes hp) ih
  | @value _ _ op span target value _ _ _ _ _ _ ih =>
    have hp : value ∈ (Node.mk (.assign op) span [target, value]).parts := by simp [Node.parts]
    exact Node.nodes_subset (Node.part_mem_nodes hp) ih
  | inPlace _ _ hp _ ih => exact Node.nodes_subset (Node.part_mem_nodes hp) ih
  | argument _ _ _ hp _ ih =>
    obtain ⟨arguments, hm, -, hp⟩ := mem_argumentsOf hp
    have hs := Node.nodes_subset (Node.part_mem_nodes (mem_of_mem_tail hm))
    exact hs (Node.nodes_subset (Node.part_mem_nodes hp) ih)

/-! ### Success -/

theorem updateEdits_of_mem {edits : List Edit} (h : updateEditsOf source style r resolving nodes = .ok edits)
    (hp : part ∈ nodes) : ∃ edits, updateEdits source style r resolving part = .ok edits := by
  induction nodes generalizing edits with
  | nil => cases hp
  | cons node rest ih =>
    rw [updateEditsOf_cons] at h
    obtain ⟨first, hf, h⟩ := bind_eq_ok.mp h
    obtain ⟨others, ho, -⟩ := bind_eq_ok.mp h
    rcases mem_cons.mp hp with rfl | hp
    · exact ⟨first, hf⟩
    · exact ih ho hp

/-- The arguments of an event that is emitted can be updated. -/
theorem substitute?_arguments (h : substitute? source style r resolving node = .ok (some text)) :
    ∃ edits, updateEditsOf source style r resolving (argumentsOf node.parts.tail) = .ok edits := by
  unfold substitute? at h
  split at h
  · split at h
    · obtain ⟨edits, he, -⟩ := bind_eq_ok.mp h
      rw [argumentUpdates_eq] at he
      exact ⟨edits, he⟩
    · cases h
  · split at h
    · obtain ⟨member, hm, -⟩ := bind_eq_some_iff.mp (Except.ok.inj h)
      unfold thisMember? at hm
      split at hm
      · exact ⟨[], by rw [Node.parts, tail_cons, argumentsOf, updateEditsOf]⟩
      · cases hm
    · cases h

/-- What can be updated is not blocked. -/
theorem blockage?_of_ok {edits : List Edit} (h : updateEdits source (.setter setterOf) r resolving node = .ok edits) :
    blockage? setterOf node = none := by
  cases hm : setterMutation? setterOf node with
  | none => exact blockage?_of_setterMutation?_eq_none hm
  | some mutation =>
    obtain ⟨hn, setter, hs⟩ := setterMutation?_eq_some.mp hm
    have hr := replacement_of_setterMutation?_eq_some hn hs
    cases he : mutation.error? (references node) with
    | none =>
      rw [blockage?, hm]
      exact he
    | some error =>
      rcases setterCall_of_error? he with hf | ⟨-, render, hc, hrn⟩
      · rw [hf] at hr
        rw [updateEdits_of_fail hr] at h
        cases h
      · rw [hc] at hr
        rw [updateEdits_of_ofValue hr] at h
        obtain ⟨value, -, h⟩ := bind_eq_ok.mp h
        rw [hrn] at h
        cases h

/-- What is known of a node that an update has come to, if the whole succeeds. -/
structure Updated (source : List Char) (cut : Span) (setterOf : String → Option String) (r : Resolver)
    (resolving : Bool) (node : Node) : Prop where
  laid : node.Laid source
  inCut : resolving = true → cut.start ≤ node.outset ∧ node.span.stop ≤ cut.stop
  ok : ∃ edits, updateEdits source (.setter setterOf) r resolving node = .ok edits

theorem Updated.substitute?_eq_ok (h : Updated source cut setterOf r resolving node)
    (hk : setterMutation? setterOf node = none) : substitute? source (.setter setterOf) r resolving node =
      .ok (written? source cut (.setter setterOf) r resolving node) := by
  obtain ⟨edits, he⟩ := h.ok
  rw [updateEdits_of_keep (replacement_of_setterMutation?_eq_none hk)] at he
  obtain ⟨found, hf, -⟩ := bind_eq_ok.mp he
  rw [hf, substitute?_eq h.laid (fun part _ => renders _ _ _ _ part) h.inCut hf]

theorem Updated.inCut_part (h : Updated source cut setterOf r resolving node) (hp : part ∈ node.parts)
    (hre : resolving) : cut.start ≤ part.outset ∧ part.span.stop ≤ cut.stop := by
  have hi := h.inCut hre
  have hr := h.laid.row_parts
  exact ⟨Nat.le_trans hi.1 (hr.le_outset_of_mem hp), Nat.le_trans (hr.stop_le hp) hi.2⟩

theorem Updated.of_part (h : Updated source cut setterOf r resolving node) (hk : setterMutation? setterOf node = none)
    (ho : written? source cut (.setter setterOf) r resolving node = none) (hp : part ∈ node.parts) :
    Updated source cut setterOf r resolving part where
  laid := h.laid.row_parts.laid_of_mem hp
  inCut := h.inCut_part hp
  ok := by
    obtain ⟨edits, he⟩ := h.ok
    rw [updateEdits_of_keep (replacement_of_setterMutation?_eq_none hk), h.substitute?_eq_ok hk, ho] at he
    exact updateEdits_of_mem he hp

theorem Updated.of_argument (h : Updated source cut setterOf r resolving node)
    (hk : setterMutation? setterOf node = none)
    (hw : written? source cut (.setter setterOf) r resolving node = some text)
    (hp : part ∈ argumentsOf node.parts.tail) : Updated source cut setterOf r resolving part := by
  obtain ⟨edits, he⟩ := substitute?_arguments ((h.substitute?_eq_ok hk).trans (congrArg _ hw))
  have ho := updateEdits_of_mem he hp
  obtain ⟨arguments, hm, -, hp⟩ := mem_argumentsOf hp
  have hm := mem_of_mem_tail hm
  have hr := (h.laid.row_parts.laid_of_mem hm).row_parts
  refine ⟨hr.laid_of_mem hp, fun hre => ?_, ho⟩
  have hi := h.inCut_part hm hre
  exact ⟨Nat.le_trans hi.1 (hr.le_outset_of_mem hp), Nat.le_trans (hr.stop_le hp) hi.2⟩

/-- What a mutation of a member with a setter is written as. -/
theorem Updated.error?_eq_none (h : Updated source cut setterOf r resolving node)
    (hm : setterMutation? setterOf node = some mutation) : mutation.error? (references node) = none := by
  obtain ⟨edits, he⟩ := h.ok
  have hn := blockage?_of_ok he
  rwa [blockage?, hm] at hn

theorem Updated.inCut_within (h : Updated source cut setterOf r resolving node)
    (hm : setterMutation? setterOf node = some mutation) (hc : node.span.within cut)
    (hp : part ∈ node.parts) : cut.start ≤ part.outset ∧ part.span.stop ≤ cut.stop := by
  have hi := within_iff.mp hc
  have hr := h.laid.row_parts
  have ho := Node.outset_of_isReplaceable (isReplaceable_of_mutation? (setterMutation?_eq_some.mp hm).1)
  have hs := hr.le_outset_of_mem hp
  exact ⟨by omega, Nat.le_trans (hr.stop_le hp) hi.2⟩

theorem Updated.of_value {target value : Node}
    (h : Updated source cut setterOf r resolving (.mk (.assign op) span [target, value]))
    (hm : setterMutation? setterOf (.mk (.assign op) span [target, value]) = some mutation)
    (hv : mutation.hasValue) (hcu : span.within cut) : Updated source cut setterOf r true value := by
  have hp : value ∈ (Node.mk (.assign op) span [target, value]).parts := by simp [Node.parts]
  refine ⟨h.laid.row_parts.laid_of_mem hp, fun _ => h.inCut_within hm hcu hp, ?_⟩
  obtain ⟨hn, setter, hs⟩ := setterMutation?_eq_some.mp hm
  have hr := replacement_of_setterMutation?_eq_some hn hs
  obtain ⟨render, hc, -⟩ := setterCall_of_hasValue hv (h.error?_eq_none hm)
  obtain ⟨edits, he⟩ := h.ok
  rw [updateEdits_of_ofValue (hr.trans hc)] at he
  obtain ⟨text, ht, -⟩ := bind_eq_ok.mp he
  obtain ⟨inner, hi, -⟩ := map_eq_ok.mp ht
  exact ⟨inner, hi⟩

theorem Updated.of_inPlace {member : String} (h : Updated source cut setterOf r resolving node)
    (hm : setterMutation? setterOf node = some (.inPlace member)) (hcu : node.span.within cut)
    (hp : part ∈ node.parts) : Updated source cut setterOf r true part := by
  refine ⟨h.laid.row_parts.laid_of_mem hp, fun _ => h.inCut_within hm hcu hp, ?_⟩
  obtain ⟨hn, setter, hs⟩ := setterMutation?_eq_some.mp hm
  have hr := replacement_of_setterMutation?_eq_some hn hs
  obtain ⟨render, hc, -⟩ := setterCall_inPlace (h.error?_eq_none hm)
  obtain ⟨edits, he⟩ := h.ok
  rw [updateEdits_of_ofAll (hr.trans hc)] at he
  obtain ⟨inner, hi, -⟩ := bind_eq_ok.mp he
  exact updateEdits_of_mem hi hp

/-- Whatever an update comes to is updated. -/
theorem Reaches.updated (h : Reaches source cut setterOf r events resolving node resolving' inner)
    (hn : Updated source cut setterOf r resolving node) : Updated source cut setterOf r resolving' inner := by
  induction h with
  | self => exact hn
  | part hk ho hp _ ih => exact ih (hn.of_part hk ho hp)
  | value hm hv hc _ ih => exact ih (hn.of_value hm hv hc)
  | inPlace hm hc hp _ ih => exact ih (hn.of_inPlace hm hc hp)
  | argument _ hk hw hp _ ih => exact ih (hn.of_argument hk hw hp)

/-! ### Texts in texts -/

theorem rendered_infix_framed {lo hi : ℕ} (hp : part ∈ nodes) :
    rendered source cut style r resolving part <:+: framed source cut style r resolving lo hi nodes := by
  induction nodes generalizing lo with
  | nil => cases hp
  | cons node rest ih =>
    rw [framed]
    rcases mem_cons.mp hp with rfl | hp
    · exact ⟨_, _, rfl⟩
    · exact (ih hp).trans (suffix_append ..).isInfix

/-- What the call of a setter is written around: the value of a mutation, or all of it, with members resolved. -/
def Mutation.innerText (source : List Char) (cut : Span) (setterOf : String → Option String) (r : Resolver)
    (mutation : Mutation) (node : Node) : List Char :=
  if mutation.hasValue then renderedValue source cut (.setter setterOf) r true node.parts
  else framed source cut (.setter setterOf) r true node.span.start node.span.stop node.parts

theorem innerText_assign {target value : Node} (h : mutation.hasValue) :
    mutation.innerText source cut setterOf r (.mk (.assign op) span [target, value]) =
      rendered source cut (.setter setterOf) r true value := by
  rw [Mutation.innerText, if_pos h, Node.parts, renderedValue]

/-- **What a mutation is written as:** the call of the setter, whose parameter is no variable that it refers to. -/
theorem rendered_of_mutation? (hm : mutation? node = some mutation)
    (hs : setterOf mutation.member = some setter) (he : mutation.error? (references node) = none)
    (hcu : node.span.within cut) :
    ∃ param ∉ references node, rendered source cut (.setter setterOf) r resolving node =
      mutation.call setter param (mutation.innerText source cut setterOf r node) := by
  have hr := replacement_of_setterMutation?_eq_some hm hs
  rw [Mutation.innerText]
  cases hv : mutation.hasValue with
  | true =>
    obtain ⟨render, hc, ht⟩ := setterCall_of_hasValue hv he
    rw [rendered_of_ofValue (hr.trans hc), fitted, if_pos hcu]
    exact ht _
  | false =>
    obtain ⟨member, rfl⟩ := eq_inPlace_of_not_hasValue hv he
    obtain ⟨render, hc, hp, ht⟩ := setterCall_inPlace he
    rw [rendered_of_ofAll (hr.trans hc), fitted, if_pos hcu]
    exact ⟨member, hp, ht _⟩

theorem Updated.isInfix_innerText (h : Updated source cut setterOf r resolving node)
    (hm : setterMutation? setterOf node = some mutation) (hc : node.span.within cut) :
    mutation.innerText source cut setterOf r node <:+: rendered source cut (.setter setterOf) r resolving node := by
  obtain ⟨hn, setter, hs⟩ := setterMutation?_eq_some.mp hm
  obtain ⟨param, -, ht⟩ := rendered_of_mutation? hn hs (h.error?_eq_none hm) hc
  rw [ht]
  exact infix_call ..

/-- What an update comes to without passing an event stands in the result. -/
theorem Reaches.isInfix (h : Reaches source cut setterOf r false resolving node resolving' inner)
    (hn : Updated source cut setterOf r resolving node) :
    rendered source cut (.setter setterOf) r resolving' inner <:+:
      rendered source cut (.setter setterOf) r resolving node := by
  induction h with
  | self => exact infix_rfl
  | part hk ho hp _ ih =>
    refine (ih (hn.of_part hk ho hp)).trans ?_
    rw [rendered_of_keep (replacement_of_setterMutation?_eq_none hk), ho]
    exact rendered_infix_framed hp
  | value hm hv hc _ ih =>
    refine (ih (hn.of_value hm hv hc)).trans ?_
    exact innerText_assign hv ▸ hn.isInfix_innerText hm hc
  | inPlace hm hc hp _ ih =>
    refine (ih (hn.of_inPlace hm hc hp)).trans ?_
    exact List.IsInfix.trans (rendered_infix_framed hp) (hn.isInfix_innerText hm hc)
  | argument he => cases he

/-! ### Nodes that are not come to -/

/-- Whether a node is `this`, the access to a property, or a list of arguments. -/
def Script.Node.isQuiet (node : Node) : Bool :=
  match node.shape with
  | .this => true
  | .member _ _ => true
  | .arguments => true
  | _ => false

theorem mutation?_of_isQuiet (h : node.isQuiet) : mutation? node = none := by
  rcases node with ⟨shape, span, parts⟩
  cases shape <;> first | rfl | cases h

theorem blockage?_of_isQuiet (h : node.isQuiet) : blockage? setterOf node = none := by
  rw [blockage?, setterMutation?, mutation?_of_isQuiet h]
  rfl

/-- An event that is emitted with more than arguments: a call with type arguments. -/
def isTypedEvent : Node → Bool
  | .mk (.call _) _ [_, .mk .arguments _ _] => false
  | .mk (.call _) _ (callee :: _) => (emitter? callee).isSome
  | _ => false

/-- A chain of accesses. -/
def IsChain (node : Node) : Prop := ∀ inner ∈ node.nodes, inner.isQuiet = true

theorem IsChain.member {name : String} {optional : Bool} {object : Node} (h : IsChain object) :
    IsChain (.mk (.member name optional) span [object]) := by
  intro inner hm
  rw [Node.nodes_eq, Node.parts, mem_cons, Node.mem_nodesOf_iff] at hm
  rcases hm with rfl | ⟨part, hp, hm⟩
  · rfl
  · obtain rfl := mem_singleton.mp hp
    exact h inner hm

theorem isChain_of_isThis (hl : node.Laid source) (h : isThis node) : IsChain node := by
  rcases node with ⟨shape, span, parts⟩
  obtain rfl : shape = .this := by simpa [isThis, Node.shape] using h
  obtain ⟨-, -, -, rfl, -⟩ := (laid_mk_of_isFramed rfl).mp hl
  intro inner hm
  rw [Node.nodes_eq, Node.parts, Node.nodesOf] at hm
  rw [mem_singleton.mp hm]
  rfl

theorem isChain_of_thisMember? {member : String} (hl : node.Laid source) (h : thisMember? node = some member) :
    IsChain node := by
  unfold thisMember? at h
  split at h
  · split at h
    · next ht => exact (isChain_of_isThis (hl.row_parts.laid_of_mem (.head _)) ht).member
    · cases h
  · cases h

theorem isChain_of_emitter? {member : String} (hl : node.Laid source) (h : emitter? node = some member) :
    IsChain node := by
  unfold emitter? at h
  split at h
  · split at h
    · exact (isChain_of_thisMember? (hl.row_parts.laid_of_mem (.head _)) h).member
    · cases h
  · cases h

/-- The target of an assignment that is written around its value. -/
theorem isChain_of_targetMutation? (hl : node.Laid source) (h : targetMutation? op node = some mutation)
    (hv : mutation.hasValue) : IsChain node := by
  unfold targetMutation? at h
  split at h
  · have ho := hl.row_parts.laid_of_mem (.head _)
    split at h
    · next ht => exact (isChain_of_isThis ho ht).member
    · split at h
      · next hm => exact (isChain_of_thisMember? ho hm).member
      · obtain ⟨member, -, rfl⟩ := map_eq_some_iff.mp h
        cases hv
  · obtain ⟨member, -, rfl⟩ := map_eq_some_iff.mp h
    cases hv
  · cases h

/-- A node for which a text is written is an access `this.member`, or the call of an event. -/
theorem written?_eq_some (h : written? source cut style r resolving node = some text) :
    (∃ member, thisMember? node = some member) ∨
      ∃ optional span callee rest member, node = .mk (.call optional) span (callee :: rest) ∧
        emitter? callee = some member := by
  rcases call_or_not node with ⟨optional, span, callee, rest, rfl⟩ | hc
  · rw [written?_call] at h
    obtain ⟨member, hm, -⟩ := bind_eq_some_iff.mp h
    split at hm
    · exact .inr ⟨optional, span, callee, rest, member, rfl, hm⟩
    · cases hm
  · rw [written?_of_not_call hc] at h
    split at h
    · obtain ⟨member, hm, -⟩ := bind_eq_some_iff.mp h
      exact .inl ⟨member, hm⟩
    · cases h

/-- If the resolver writes no events, no way leads through one. -/
theorem Reaches.of_emit (he : ∀ member arguments, r.emit member arguments = none)
    (h : Reaches source cut setterOf r events resolving node resolving' inner) :
    Reaches source cut setterOf r false resolving node resolving' inner := by
  induction h with
  | self => exact .self
  | part hk ho hp _ ih => exact .part hk ho hp ih
  | value hmu hv hc _ ih => exact .value hmu hv hc ih
  | inPlace hmu hc hp _ ih => exact .inPlace hmu hc hp ih
  | argument _ _ hw hp =>
    exfalso
    rcases written?_eq_some hw with ⟨member, hm⟩ | ⟨optional, span, callee, rest, member, rfl, -⟩
    · unfold thisMember? at hm
      split at hm
      · cases hp
      · cases hm
    · rw [written?_call] at hw
      obtain ⟨member, -, ht⟩ := bind_eq_some_iff.mp hw
      rw [he] at ht
      cases ht

/-- A call of an event without type arguments has one list of arguments. -/
theorem parts_of_not_isTypedEvent {optional : Bool} {callee : Node} {rest : List Node} {member : String}
    (h : isTypedEvent (.mk (.call optional) span (callee :: rest)) = false) (hm : emitter? callee = some member) :
    ∃ inner arguments, rest = [.mk .arguments inner arguments] := by
  unfold isTypedEvent at h
  split at h
  · next inner arguments heq =>
    cases heq
    exact ⟨inner, arguments, rfl⟩
  · next heq =>
    cases heq
    rw [hm] at h
    cases h
  · next ho => exact (ho _ _ _ _ rfl).elim

/-- **What an update comes to.** Unless an event is emitted with type arguments, or a node reaches outside of the
cut, only accesses and lists of arguments are passed over. -/
theorem reaches_of_mem (h : Updated source cut setterOf r resolving node)
    (hpl : ∀ inner ∈ node.nodes, isTypedEvent inner = false)
    (hc : ∀ inner ∈ node.nodes, inner.shape.isReplaceable → inner.span.within cut)
    (hm : inner ∈ node.nodes) : inner.isQuiet ∨
      ∃ resolving', Reaches source cut setterOf r true resolving node resolving' inner := by
  induction node using Node.strongInduction generalizing resolving with
  | h node below =>
    have ih {resolving : Bool} {i : ℕ} {place : List ℕ} {part : Node} (ha : node.at? (i :: place) = some part)
        (hp : Updated source cut setterOf r resolving part) (hm : inner ∈ part.nodes) :
        inner.isQuiet = true ∨ ∃ resolving', Reaches source cut setterOf r true resolving part resolving' inner := by
      have hsu := Node.nodes_subset (Node.mem_nodes_iff.mpr ⟨_, ha⟩)
      exact below i place part ha hp (fun inner hm => hpl inner (hsu hm))
        (fun inner hm => hc inner (hsu hm)) hm
    have hs := node.self_mem_nodes
    have hal := hm
    rw [Node.nodes_eq, mem_cons, Node.mem_nodesOf_iff] at hm
    rcases hm with rfl | ⟨part, hp, hm⟩
    · exact .inr ⟨_, .self⟩
    obtain ⟨i, hi⟩ := mem_iff_getElem?.mp hp
    have ha : node.at? [i] = some part := Node.at?_cons_eq_some.mpr ⟨part, hi, rfl⟩
    cases hmu : setterMutation? setterOf node with
    | none =>
      cases hw : written? source cut (.setter setterOf) r resolving node with
      | none =>
        exact (ih ha (h.of_part hmu hw hp) hm).imp_right fun ⟨resolving', hi1⟩ => ⟨resolving', .part hmu hw hp hi1⟩
      | some text =>
        rcases written?_eq_some hw with ⟨member, hmb⟩ | ⟨optional, span, callee, rest, member, rfl, hmb⟩
        · exact .inl (isChain_of_thisMember? h.laid hmb inner hal)
        · obtain ⟨innerSpan, arguments, rfl⟩ := parts_of_not_isTypedEvent (hpl _ hs) hmb
          rcases mem_pair.mp hp with rfl | rfl
          · exact .inl (isChain_of_emitter? (h.laid.row_parts.laid_of_mem hp) hmb inner hm)
          · rw [Node.nodes_eq, mem_cons, Node.mem_nodesOf_iff] at hm
            rcases hm with rfl | ⟨argument, har, hm⟩
            · exact .inl rfl
            · obtain ⟨j, hj⟩ := mem_iff_getElem?.mp har
              have ha : (Node.mk (.call optional) span [callee, .mk .arguments innerSpan arguments]).at? [i, j] =
                  some argument := Node.at?_cons_eq_some.mpr ⟨_, hi, Node.at?_cons_eq_some.mpr ⟨argument, hj, rfl⟩⟩
              exact (ih ha (h.of_argument hmu hw har) hm).imp_right fun ⟨resolving', hi1⟩ =>
                ⟨resolving', .argument rfl hmu hw har hi1⟩
    | some mutation =>
      have hn := (setterMutation?_eq_some.mp hmu).1
      have hin := hc node hs (isReplaceable_of_mutation? hn)
      cases hv : mutation.hasValue with
      | false =>
        obtain ⟨member, rfl⟩ := eq_inPlace_of_not_hasValue hv (h.error?_eq_none hmu)
        exact (ih ha (h.of_inPlace hmu hin hp) hm).imp_right fun ⟨resolving', hi1⟩ =>
          ⟨resolving', .inPlace hmu hin hp hi1⟩
      | true =>
        have hl := h.laid.row_parts.laid_of_mem hp
        rcases form_of_hasValue hn hv with ⟨op, span, target, value, rfl⟩ |
          ⟨increment, before, span, target, rfl⟩
        · rcases mem_pair.mp hp with rfl | rfl
          · exact .inl (isChain_of_targetMutation? hl hn hv inner hm)
          · exact (ih ha (h.of_value hmu hv hin) hm).imp_right fun ⟨resolving', hi1⟩ =>
              ⟨resolving', .value hmu hv hin hi1⟩
        · obtain rfl := mem_singleton.mp hp
          exact .inl (isChain_of_targetMutation? hl hn hv inner hm)

/-! ### Snippets -/

section

variable {code result : String} {kind : SnippetKind} {snippet : Snippet}

theorem Updated.of_updateMembers (hp : Snippet.parse code kind = .ok snippet)
    (ho : updateMembers code kind (.setter setterOf) r = .ok result) :
    Updated snippet.text snippet.user setterOf r false snippet.root := by
  rw [updateMembers_of_parse hp] at ho
  obtain ⟨edits, he, -⟩ := map_eq_ok.mp ho
  exact ⟨(Snippet.of_parse hp).1, nofun, edits, he⟩

/-- What an update of a snippet comes to without passing an event stands in the result. -/
theorem Reaches.infix_result (hp : Snippet.parse code kind = .ok snippet)
    (ho : updateMembers code kind (.setter setterOf) r = .ok result)
    (h : Reaches snippet.text snippet.user setterOf r false false snippet.root resolving inner) :
    rendered snippet.text snippet.user (.setter setterOf) r resolving inner <:+:
      kind.before ++ result.toList ++ kind.after := by
  rw [updateMembers_rendered hp ho, Snippet.rendered]
  exact (h.isInfix (.of_updateMembers hp ho)).trans (rendered_infix_framed (.head _))

/-- In a snippet that stands alone all nodes that are not quiet are come to, unless an event is emitted with type
arguments. -/
theorem reaches_of_standsAlone (hp : Snippet.parse code kind = .ok snippet)
    (ho : updateMembers code kind (.setter setterOf) r = .ok result) (ha : snippet.standsAlone kind)
    (hpl : ∀ node ∈ snippet.root.nodes, isTypedEvent node = false) (hm : inner ∈ snippet.root.nodes)
    (hq : inner.isQuiet = false) :
    ∃ resolving, Reaches snippet.text snippet.user setterOf r true false snippet.root resolving inner := by
  rcases reaches_of_mem (.of_updateMembers hp ho) hpl
    (fun node hn hs => Node.within_user hp ha hn hs) hm with h | h
  · rw [hq] at h
    cases h
  · exact h

end

end Polyview
