import Polyview.Proofs.Member.Setter

/-! # When an update by setters fails

An update fails at the first mutation that cannot be written, with the error of that mutation (`exists_blocked`). If
it succeeds, none of the nodes that it has come to is blocked. So it fails exactly if it comes to a mutation that is
blocked.

The only nodes that are not come to, accesses apart, are the type arguments of an event that is emitted inside of
something that is replaced. A mutation in there has no effect on the result. -/

namespace Polyview

open List Script

variable {source : List Char} {setterOf : String → Option String} {r : Resolver} {resolving : Bool}
  {node : Node} {nodes : List Node} {mutation : Mutation} {error : Error} {style : UpdateStyle}

def wholeOf (source : List Char) : Span := ⟨0, Text.byteLength source⟩

/-- A node is come to from another one, whether it lies in the snippet or not. -/
def Found (source : List Char) (setterOf : String → Option String) (r : Resolver) (resolving : Bool)
    (node inner : Node) : Prop :=
  ∃ resolving', Reaches source (wholeOf source) setterOf r true resolving node resolving' inner

theorem Script.Node.Laid.within_wholeOf (h : node.Laid source) : node.span.within (wholeOf source) :=
  within_iff.mpr ⟨Nat.zero_le _, h.boundaries.2.1.le_byteLength⟩

/-! ### Errors come from blocked mutations -/

theorem exists_of_updateEditsOf_error
    (h : updateEditsOf source style r resolving nodes = .error error) :
    ∃ part ∈ nodes, updateEdits source style r resolving part = .error error := by
  induction nodes with
  | nil =>
    rw [updateEditsOf] at h
    cases h
  | cons node rest ih =>
    rw [updateEditsOf_cons] at h
    rcases bind_eq_error.mp h with h | ⟨first, -, h⟩
    · exact ⟨node, .head _, h⟩
    · rcases bind_eq_error.mp h with h | ⟨others, -, h⟩
      · obtain ⟨part, hp, h⟩ := ih h
        exact ⟨part, .tail _ hp, h⟩
      · cases h

theorem substitute?_eq_error (h : substitute? source style r resolving node = .error error) :
    updateEditsOf source style r resolving (argumentsOf node.parts.tail) = .error error := by
  unfold substitute? at h
  split at h
  · split at h
    · rcases bind_eq_error.mp h with he | ⟨edits, -, he⟩
      · rwa [argumentUpdates_eq] at he
      · cases he
    · cases h
  · cases h

/-- The arguments of a call that is kept are come to, whether it emits an event or not. -/
theorem Found.of_argument {part inner : Node} (hk : setterMutation? setterOf node = none)
    (hp : part ∈ argumentsOf node.parts.tail) (h : Found source setterOf r resolving part inner) :
    Found source setterOf r resolving node inner := by
  obtain ⟨resolving', h⟩ := h
  cases hw : written? source (wholeOf source) (.setter setterOf) r resolving node with
  | some text => exact ⟨resolving', .argument rfl hk hw hp h⟩
  | none =>
    obtain ⟨arguments, hm, hs, hp⟩ := mem_argumentsOf hp
    rcases arguments with ⟨shape, span, parts⟩
    obtain rfl : shape = .arguments := hs
    have ho : written? source (wholeOf source) (.setter setterOf) r resolving (.mk .arguments span parts) = none := by
      rw [written?_of_not_call (by rintro _ _ _ ⟨⟩)]
      simp [thisMember?]
    exact ⟨resolving', .part hk hw (mem_of_mem_tail hm) (.part rfl ho hp h)⟩

/-- The error of a mutation comes from its value, from one of its parts, or is its own. -/
theorem error_of_mutation (hm : setterMutation? setterOf node = some mutation)
    (h : updateEdits source (.setter setterOf) r resolving node = .error error) :
    blockage? setterOf node = some error ∨
      (mutation.hasValue ∧ ∃ op span target value, node = .mk (.assign op) span [target, value] ∧
        updateEdits source (.setter setterOf) r true value = .error error) ∨
      ((∃ member, mutation = .inPlace member) ∧
        ∃ part ∈ node.parts, updateEdits source (.setter setterOf) r true part = .error error) := by
  obtain ⟨hn, setter, hs⟩ := setterMutation?_eq_some.mp hm
  have hr := replacement_of_setterMutation?_eq_some hn hs
  have hb : blockage? setterOf node = mutation.error? (references node) := by
    rw [blockage?, hm]
    rfl
  have hve (hv : mutation.hasValue = true)
      (h : valueText source (.setter setterOf) r node = .error error) :
      ∃ op span target value, node = .mk (.assign op) span [target, value] ∧
        updateEdits source (.setter setterOf) r true value = .error error := by
    rcases form_of_hasValue hn hv with ⟨op, span, target, value, rfl⟩ | ⟨increment, before, span, target, rfl⟩
    · exact ⟨op, span, target, value, rfl, map_eq_error.mp h⟩
    · cases h
  cases he : mutation.error? (references node) with
  | some own =>
    rcases setterCall_of_error? he with hf | ⟨hv, render, hc, hrn⟩
    · rw [updateEdits_of_fail (hr.trans hf)] at h
      cases h
      exact .inl (hb.trans he)
    · rw [updateEdits_of_ofValue (hr.trans hc)] at h
      rcases bind_eq_error.mp h with h | ⟨text, -, h⟩
      · exact .inr (.inl ⟨hv, hve hv h⟩)
      · rw [hrn] at h
        cases h
        exact .inl (hb.trans he)
  | none =>
    cases hv : mutation.hasValue with
    | true =>
      obtain ⟨render, hc, -⟩ := setterCall_of_hasValue hv he
      rw [updateEdits_of_ofValue (hr.trans hc)] at h
      rcases bind_eq_error.mp h with h | ⟨text, -, h⟩
      · exact .inr (.inl ⟨rfl, hve hv h⟩)
      · cases h
    | false =>
      obtain ⟨member, rfl⟩ := eq_inPlace_of_not_hasValue hv he
      obtain ⟨render, hc, -⟩ := setterCall_inPlace he
      rw [updateEdits_of_ofAll (hr.trans hc)] at h
      rcases bind_eq_error.mp h with h | ⟨edits, -, h⟩
      · exact .inr (.inr ⟨⟨member, rfl⟩, exists_of_updateEditsOf_error h⟩)
      · cases h

/-- **An error** is that of a blocked mutation that the update has come to. -/
theorem exists_blocked (hl : node.Laid source)
    (h : updateEdits source (.setter setterOf) r resolving node = .error error) :
    ∃ inner, Found source setterOf r resolving node inner ∧ blockage? setterOf inner = some error := by
  induction node using Node.strongInduction generalizing resolving with
  | h node below =>
    have ih {resolving : Bool} {part : Node} (hp : part ∈ node.parts)
        (h : updateEdits source (.setter setterOf) r resolving part = .error error) :
        ∃ inner, Found source setterOf r resolving part inner ∧ blockage? setterOf inner = some error := by
      obtain ⟨i, hi⟩ := mem_iff_getElem?.mp hp
      exact below i [] part (Node.at?_cons_eq_some.mpr ⟨part, hi, rfl⟩) (hl.row_parts.laid_of_mem hp) h
    cases hm : setterMutation? setterOf node with
    | none =>
      rw [updateEdits_of_keep (replacement_of_setterMutation?_eq_none hm)] at h
      rcases bind_eq_error.mp h with hs | ⟨found, hf, h⟩
      · obtain ⟨part, hp, he⟩ := exists_of_updateEditsOf_error (substitute?_eq_error hs)
        obtain ⟨arguments, hme, -, hin⟩ := mem_argumentsOf hp
        have hme := mem_of_mem_tail hme
        obtain ⟨i, hi⟩ := mem_iff_getElem?.mp hme
        obtain ⟨j, hj⟩ := mem_iff_getElem?.mp hin
        have ha : node.at? [i, j] = some part :=
          Node.at?_cons_eq_some.mpr ⟨arguments, hi, Node.at?_cons_eq_some.mpr ⟨part, hj, rfl⟩⟩
        obtain ⟨inner, hi1, hb⟩ := below i [j] part ha ((hl.row_parts.laid_of_mem hme).row_parts.laid_of_mem hin) he
        exact ⟨inner, .of_argument hm hp hi1, hb⟩
      · cases found with
        | some text => cases h
        | none =>
          obtain ⟨part, hp, he⟩ := exists_of_updateEditsOf_error h
          obtain ⟨inner, ⟨resolving', hi1⟩, hb⟩ := ih hp he
          have ho := substitute?_eq hl (fun part _ => renders _ (wholeOf source) _ _ part)
            (fun _ => ⟨Nat.zero_le _, hl.boundaries.2.1.le_byteLength⟩) hf
          exact ⟨inner, ⟨resolving', .part hm ho.symm hp hi1⟩, hb⟩
    | some mutation =>
      rcases error_of_mutation hm h with hb | ⟨hv, op, span, target, value, rfl, he⟩ |
        ⟨⟨member, rfl⟩, part, hp, he⟩
      · exact ⟨node, ⟨_, .self⟩, hb⟩
      · have hp : value ∈ (Node.mk (.assign op) span [target, value]).parts := by simp [Node.parts]
        obtain ⟨inner, ⟨resolving', hi1⟩, hb⟩ := ih hp he
        exact ⟨inner, ⟨resolving', .value hm hv hl.within_wholeOf hi1⟩, hb⟩
      · obtain ⟨inner, ⟨resolving', hi1⟩, hb⟩ := ih hp he
        exact ⟨inner, ⟨resolving', .inPlace hm hl.within_wholeOf hp hi1⟩, hb⟩

/-! ### Snippets -/

theorem updateEdits_of_no_mutation
    (h : ∀ inner ∈ node.nodes, style.replacement inner = .keep) : updateEdits source style r false node = .ok [] := by
  induction node using Node.inductionOnParts with
  | h node ih =>
    rw [updateEdits_of_keep (h node node.self_mem_nodes), substitute?_false]
    refine updateEditsOf_eq_nil fun part hp => ih part hp fun inner hm => ?_
    exact h inner (Node.nodes_subset (Node.part_mem_nodes hp) hm)

theorem code_of_error? {referenced : List String} (h : mutation.error? referenced = some error) :
    error.kind = "UnsupportedConstruct" ∧ error.code.text = "TSR305" := by
  unfold Mutation.error? at h
  split at h
  · cases h
    exact ⟨rfl, rfl⟩
  · cases h
    exact ⟨rfl, rfl⟩
  · cases h
    exact ⟨rfl, rfl⟩
  · split at h
    · cases h
      exact ⟨rfl, rfl⟩
    · cases h
  · cases h

theorem updateMembers_eq_error {code : String} {kind : SnippetKind} {snippet : Snippet}
    (hp : Snippet.parse code kind = .ok snippet) : updateMembers code kind style r = .error error ↔
      updateEdits snippet.text style r false snippet.root = .error error := by
  rw [updateMembers_of_parse hp, map_eq_error]

/-- Whatever an update of a snippet fails with is the error of a mutation. -/
theorem code_of_updateMembers_error {code : String} {kind : SnippetKind} {snippet : Snippet}
    (hp : Snippet.parse code kind = .ok snippet) (h : updateMembers code kind (.setter setterOf) r = .error error) :
    error.kind = "UnsupportedConstruct" ∧ error.code.text = "TSR305" := by
  obtain ⟨node, -, hb⟩ := exists_blocked (Snippet.of_parse hp).1 ((updateMembers_eq_error hp).mp h)
  obtain ⟨mutation, -, hb⟩ := Option.bind_eq_some_iff.mp hb
  exact code_of_error? hb

/-- **When an update by setters fails:** exactly if it comes to a mutation of a member with a setter that cannot be
written as the call of the setter. Unless an event is emitted with type arguments, these are all mutations in the
snippet. If there is no mutation of a member with a setter at all, the code is left as it is. -/
theorem updateMembers_fails_iff {code : String} {kind : SnippetKind} {snippet : Snippet}
    (setterOf : String → Option String) (r : Resolver) (hparse : Snippet.parse code kind = .ok snippet) :
    ((∃ error, updateMembers code kind (.setter setterOf) r = .error error) ↔
      ∃ node, Found snippet.text setterOf r false snippet.root node ∧ (blockage? setterOf node).isSome) ∧
    ((∀ node ∈ snippet.root.nodes, isTypedEvent node = false) →
      ((∃ error, updateMembers code kind (.setter setterOf) r = .error error) ↔
        ∃ node ∈ snippet.root.nodes, (blockage? setterOf node).isSome)) ∧
    (∀ error, updateMembers code kind (.setter setterOf) r = .error error →
      error.kind = "UnsupportedConstruct" ∧ error.code.text = "TSR305") ∧
    ((∀ node ∈ snippet.root.nodes, setterMutation? setterOf node = none) →
      updateMembers code kind (.setter setterOf) r = .ok code) := by
  have hl := (Snippet.of_parse hparse).1
  have hfa : (∃ error, updateMembers code kind (.setter setterOf) r = .error error) ↔
      ∃ error, updateEdits snippet.text (.setter setterOf) r false snippet.root = .error error :=
    exists_congr fun error => updateMembers_eq_error hparse
  have ho {edits : List Edit} {node : Node}
      (hok : updateEdits snippet.text (.setter setterOf) r false snippet.root = .ok edits)
      (hf : Found snippet.text setterOf r false snippet.root node) : blockage? setterOf node = none := by
    obtain ⟨resolving', hr⟩ := hf
    obtain ⟨edits, he⟩ := (hr.updated ⟨hl, nofun, ⟨edits, hok⟩⟩).ok
    exact blockage?_of_ok he
  refine ⟨?_, fun hp => ?_, fun error her => code_of_updateMembers_error hparse her, fun hn => ?_⟩
  · rw [hfa]
    constructor
    · rintro ⟨error, her⟩
      obtain ⟨node, hf, hb⟩ := exists_blocked hl her
      exact ⟨node, hf, by rw [hb]; rfl⟩
    · rintro ⟨node, hf, hb⟩
      cases he : updateEdits snippet.text (.setter setterOf) r false snippet.root with
      | error error => exact ⟨error, rfl⟩
      | ok edits =>
        rw [ho he hf] at hb
        cases hb
  · rw [hfa]
    constructor
    · rintro ⟨error, her⟩
      obtain ⟨node, ⟨resolving', hr⟩, hb⟩ := exists_blocked hl her
      exact ⟨node, hr.mem_nodes, by rw [hb]; rfl⟩
    · rintro ⟨node, hm, hb⟩
      cases he : updateEdits snippet.text (.setter setterOf) r false snippet.root with
      | error error => exact ⟨error, rfl⟩
      | ok edits =>
        have hcu : ∀ inner ∈ snippet.root.nodes, inner.shape.isReplaceable = true →
            inner.span.within (wholeOf snippet.text) = true :=
          fun inner hi _ => (hl.of_mem_nodes hi).within_wholeOf
        have hro : Updated snippet.text (wholeOf snippet.text) setterOf r false snippet.root := ⟨hl, nofun, ⟨edits, he⟩⟩
        rcases reaches_of_mem hro hp hcu hm with hq | hf
        · rw [blockage?_of_isQuiet hq] at hb
          cases hb
        · rw [ho he hf] at hb
          cases hb
  · have hk : updateEdits snippet.text (.setter setterOf) r false snippet.root = .ok [] :=
      updateEdits_of_no_mutation fun inner hm => replacement_of_setterMutation?_eq_none (hn inner hm)
    have hc : splice snippet.text snippet.user [] = code.toList := (Snippet.chars_of_parse hparse).2.1
    rw [updateMembers_of_parse hparse, hk, ← String.ofList_toList (s := code), ← hc]
    rfl

/-- A mutation too far below a member, in the arguments of an event that is emitted inside of a value: the update
comes to it and fails. -/
theorem updateMembers_fails_in_event : ∃ snippet,
    Snippet.parse "this.total = this.onAdd.emit(this.user.name.first = 1)" .expression = .ok snippet ∧
      (∀ node ∈ snippet.root.nodes, isTypedEvent node = false) ∧
      (∃ node ∈ snippet.root.nodes, (blockage? (fun member => some ("set" ++ member)) node).isSome) ∧
      ∃ error, updateMembers "this.total = this.onAdd.emit(this.user.name.first = 1)" .expression
        (.setter fun member => some ("set" ++ member)) ⟨fun _ => none, fun member args => some (member ++ args)⟩ =
          .error error := by
  have hpa : (Snippet.parse? "this.total = this.onAdd.emit(this.user.name.first = 1)" .expression).any
      (fun snippet => (snippet.root.nodes.all fun node => !isTypedEvent node) &&
        snippet.root.nodes.any fun node => (blockage? (fun member => some ("set" ++ member)) node).isSome) = true := by
    decide +kernel
  obtain ⟨snippet, hs, ht⟩ := Snippet.exists_parse_of_any hpa
  rw [Bool.and_eq_true, all_eq_true, any_eq_true] at ht
  obtain ⟨hp, hb⟩ := ht
  have hp : ∀ node ∈ snippet.root.nodes, isTypedEvent node = false := by simpa using hp
  exact ⟨snippet, hs, hp, hb, ((updateMembers_fails_iff _ _ hs).2.1 hp).mpr hb⟩

/-- A mutation that cannot be written stands in the type arguments of an event, and the update succeeds. -/
theorem updateMembers_drops_type_arguments : ∃ snippet,
    Snippet.parse "this.count = this.onChange.emit<\x7b [this.count ||= 1]: 1 \x7d>(2);" .statements = .ok snippet ∧
      updateMembers "this.count = this.onChange.emit<\x7b [this.count ||= 1]: 1 \x7d>(2);" .statements
        (.setter fun member => if member == "count" then some "setCount" else none)
        ⟨fun _ => none, fun member args => some (member ++ "(" ++ args ++ ")")⟩ = .ok "setCount(onChange(2));" ∧
      ∃ node ∈ snippet.root.nodes, blockage? (fun member => if member == "count" then some "setCount" else none) node =
          some (logicalError "count") := by
  have hp : (Snippet.parse? "this.count = this.onChange.emit<\x7b [this.count ||= 1]: 1 \x7d>(2);" .statements).any
      (fun snippet => snippet.root.nodes.any fun node =>
        blockage? (fun member => if member == "count" then some "setCount" else none) node ==
          some (logicalError "count")) = true := by
    decide +kernel
  obtain ⟨snippet, hs, ht⟩ := Snippet.exists_parse_of_any hp
  obtain ⟨node, hm, hn⟩ := any_eq_true.mp ht
  exact ⟨snippet, hs, by decide +kernel, node, hm, by simpa using hn⟩

end Polyview
