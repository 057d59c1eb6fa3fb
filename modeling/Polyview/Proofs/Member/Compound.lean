import Polyview.Proofs.Member.Setter
import Polyview.Proofs.Script.TermReading

/-! # Compound assignments

An assignment such as `this.count += value` becomes `setCount(count => count + value)`. The parameter of the updater is
a name that the assignment does not refer to, and the value is put behind the operator as it is written, with its own
updates made but without parentheses. So what the updater computes depends on how tightly the value holds together:
`this.count -= a - b` becomes `setCount(count => count - a - b)`, which subtracts `b` from the count as well. The value
is the whole right operand if it binds tighter than the operator, and in no script otherwise. -/

namespace Polyview

open List Script

/-- A call of a setter with an updater that applies an operator to the old value. -/
def updaterCall (setter param op value : String) : String :=
  setter ++ "(" ++ param ++ " => " ++ param ++ " " ++ op ++ " " ++ value ++ ")"

/-- The new value of a property. -/
def propertyUpdate (param property op value : String) : String := param ++ "." ++ property ++ " " ++ op ++ " " ++ value

/-- A call of a setter with an updater that applies an operator to a property of the old value. -/
def propertyUpdaterCall (setter param property op value : String) : String :=
  setter ++ "(" ++ param ++ " => (\x7b ..." ++ param ++ ", " ++ property ++ ": " ++
    propertyUpdate param property op value ++ " \x7d))"

/-- The term of a call of a setter with an updater. -/
def updaterTerm (setter param op : String) (value : Term) : Term :=
  .call (.word setter) (.arrow param (.binary op (.word param) value))

/-! ### What is written -/

variable {source : List Char} {cut : Span} {setterOf : String → Option String} {r : Resolver} {resolving : Bool}
  {op member setter : String} {span : Span} {target value : Node}

theorem targetMutation?_of_thisMember? {op : AssignOp} (h : thisMember? target = some member) :
    targetMutation? op target = some (.whole member op) := by
  unfold thisMember? at h
  split at h
  · split at h
    · next ht =>
      cases h
      rw [targetMutation?, if_pos ht]
    · cases h
  · cases h

theorem targetMutation?_of_property {op : AssignOp} {property : String} {optional : Bool} {object : Node}
    (h : thisMember? object = some member) :
    targetMutation? op (.mk (.member property optional) span [object]) = some (.nested member property op) := by
  have ht : isThis object = false := by
    unfold thisMember? at h
    split at h
    · rfl
    · cases h
  rw [targetMutation?, ht, h]
  rfl

theorem call_whole (setter param member op : String) (text : List Char) :
    (Mutation.whole member (.binary op)).call setter param text =
      (updaterCall setter param op (String.ofList text)).toList := by
  simp [Mutation.call, Mutation.updater, updaterCall]

theorem call_nested (setter param member property op : String) (text : List Char) :
    (Mutation.nested member property (.binary op)).call setter param text =
      (propertyUpdaterCall setter param property op (String.ofList text)).toList := by
  simp [Mutation.call, Mutation.updater, propertyUpdaterCall, propertyUpdate]

/-- The call of the setter stands around what the value is written as. -/
theorem rendered_compound {mutation : Mutation} (h : targetMutation? (.binary op) target = some mutation)
    (hs : setterOf mutation.member = some setter) (hv : mutation.hasValue)
    (he : mutation.error? (references (.mk (.assign (.binary op)) span [target, value])) = none)
    (hc : span.within cut) : ∃ param, param ∉ references (.mk (.assign (.binary op)) span [target, value]) ∧
      rendered source cut (.setter setterOf) r resolving (.mk (.assign (.binary op)) span [target, value]) =
        mutation.call setter param (rendered source cut (.setter setterOf) r true value) := by
  have hm : mutation? (.mk (.assign (.binary op)) span [target, value]) = some mutation := h
  obtain ⟨param, hp, ht⟩ := rendered_of_mutation? hm hs he hc
  rw [innerText_assign hv] at ht
  exact ⟨param, hp, ht⟩

/-! ### How it is read -/

section

variable {v : Term} {param text : String}

theorem valid_binary {old : Term} (hold : old.Valid) (ht : 4 ≤ old.tightness) (ho : (operator? op).isSome) (hv : v.Valid)
    (hb : bindsBehind (symbolLevel op) v.shape.level) : (Term.binary op old v).Valid := by
  refine ⟨hold, ho, ?_, hb, hv⟩
  have hl : old.shape.level = 13 := Shape.level_eq (Nat.le_of_succ_le ht)
  have hbo := symbolLevel_bounds op
  exact Bool.eq_false_iff.mpr (mt bindsBehind_iff.mp (by omega))

/-- A value that binds tighter than the operator is the whole right operand of it. -/
theorem reads_updaterCall (hse : (Term.word setter).Valid) (hp : (Term.word param).Valid) (hth : param ≠ "this")
    (ho : (operator? op).isSome) (hv : v.Valid) (ht : v.text = text.toList)
    (hb : bindsBehind (symbolLevel op) v.shape.level) (n : ℕ) :
    AlwaysReads (Grammar.level n).leftHandSide (updaterCall setter param op text) false
      fun read => read.nodes.any (·.alike (updaterTerm setter param op v).tree) := by
  intro context cursor read cursor' behind _ h ha
  have hva := valid_binary hp (tight_word param) ho hv hb
  have hc : (updaterTerm setter param op v).Valid :=
    ⟨hse, tight_word setter, hp.1, hp.2.resolve_left hth, Nat.le_trans (by decide) (tight_binary op _ v), hva⟩
  have hs : (updaterTerm setter param op v).text = (updaterCall setter param op text).toList := by
    simp [updaterTerm, updaterCall, Term.text, ht]
  rw [← hs] at ha
  cases n with
  | zero => cases h
  | succ n => exact hc.called (fun _ => rfl) h ha

theorem reads_propertyUpdate {property : String} (hpa : (Term.word param).Valid) (hp : Text.isIdentifier property)
    (ho : (operator? op).isSome) (hv : v.Valid) (ht : v.text = text.toList)
    (hb : bindsBehind (symbolLevel op) v.shape.level) (n : ℕ) (allowReturn : Bool) :
    AlwaysReads ((Grammar.level n).assignment allowReturn) (propertyUpdate param property op text ++ " \x7d") v.indexed
      fun read => read.alike (Term.binary op (.member (.word param) property) v).tree := by
  intro context cursor read cursor' behind hf h ha
  have hva : (Term.binary op (.member (.word param) property) v).Valid :=
    valid_binary ⟨hpa, tight_word param, hp⟩ (Nat.le_refl 4) ho hv hb
  have hs : (propertyUpdate param property op text ++ " \x7d").toList ++ behind =
      (Term.binary op (.member (.word param) property) v).text ++ ' ' :: '\x7d' :: behind := by
    simp [propertyUpdate, Term.text, ht]
  rw [hs] at ha
  exact (hva.reads.value (Nat.le_trans (by decide) (tight_binary op _ v)) hf stops_rbrace rfl h ha).1

end

/-- **Compound assignments.** Where an update succeeds, every compound assignment of a member with a setter, or of a
property of it, that the update comes to is written as a call of the setter with an updater. Its parameter is none of
the names that the assignment refers to. The updater ends in the parameter or its property, the operator, and what the
value is written as, with nothing around the value. In a script that holds the call the value is the whole right operand
of the operator only if it binds tighter than the operator, or as tight for powers. A term that does so is the whole
right operand wherever the call is read, or the new value of the property. The call stands in the result, unless it is
handed to an event. In a snippet that stands alone the update comes to all assignments, except for those in type
arguments of events. -/
theorem compound_update_written {code result : String} {kind : SnippetKind} {snippet : Snippet}
    (setterOf : String → Option String) (r : Resolver) (hparse : Snippet.parse code kind = .ok snippet)
    (hok : updateMembers code kind (.setter setterOf) r = .ok result) :
    (∀ resolving op span target value member setter written,
      Reaches snippet.text snippet.user setterOf r true false snippet.root resolving
        (.mk (.assign (.binary op)) span [target, value]) →
      span.within snippet.user = true → setterOf member = some setter →
      written = String.ofList (rendered snippet.text snippet.user (.setter setterOf) r true value) →
        (thisMember? target = some member →
          ∃ param, param ∉ references (.mk (.assign (.binary op)) span [target, value]) ∧
            rendered snippet.text snippet.user (.setter setterOf) r resolving
              (.mk (.assign (.binary op)) span [target, value]) = (updaterCall setter param op written).toList ∧
            (∀ operand, expression? written = some operand →
              WholeIn (updaterCall setter param op written) (Node.rightOf? op) operand →
                bindsBehind (symbolLevel op) operand.shape.level = true) ∧
            ∀ v : Term, v.Valid → v.text = written.toList → bindsBehind (symbolLevel op) v.shape.level = true →
              (operator? op).isSome → (Term.word setter).Valid → (Term.word param).Valid → param ≠ "this" → ∀ n,
                AlwaysReads (Grammar.level n).leftHandSide (updaterCall setter param op written) false
                  fun read => read.nodes.any (·.alike (updaterTerm setter param op v).tree)) ∧
        (∀ property optional inner object, target = .mk (.member property optional) inner [object] →
          thisMember? object = some member →
          ∃ param, param ∉ references (.mk (.assign (.binary op)) span [target, value]) ∧
            rendered snippet.text snippet.user (.setter setterOf) r resolving
              (.mk (.assign (.binary op)) span [target, value]) =
                (propertyUpdaterCall setter param property op written).toList ∧
            (∀ operand, expression? written = some operand →
              WholeIn (propertyUpdaterCall setter param property op written) (Node.rightOf? op) operand →
                bindsBehind (symbolLevel op) operand.shape.level = true) ∧
            ∀ v : Term, v.Valid → v.text = written.toList → bindsBehind (symbolLevel op) v.shape.level = true →
              (operator? op).isSome → Text.isIdentifier property = true → (Term.word param).Valid → ∀ n allowReturn,
                AlwaysReads ((Grammar.level n).assignment allowReturn)
                  (propertyUpdate param property op written ++ " \x7d") v.indexed
                  fun read => read.alike (Term.binary op (.member (.word param) property) v).tree)) ∧
    (∀ resolving node, Reaches snippet.text snippet.user setterOf r false false snippet.root resolving node →
      rendered snippet.text snippet.user (.setter setterOf) r resolving node <:+:
        kind.before ++ result.toList ++ kind.after) ∧
    (snippet.standsAlone kind = true → (∀ node ∈ snippet.root.nodes, isTypedEvent node = false) →
      ∀ op span target value, .mk (.assign op) span [target, value] ∈ snippet.root.nodes →
        span.within snippet.user = true ∧
          ∃ resolving, Reaches snippet.text snippet.user setterOf r true false snippet.root resolving
              (.mk (.assign op) span [target, value]) ∧
            ((∀ event arguments, r.emit event arguments = none) →
              Reaches snippet.text snippet.user setterOf r false false snippet.root resolving
                (.mk (.assign op) span [target, value]))) := by
  refine ⟨?_, fun resolving node h => h.infix_result hparse hok, ?_⟩
  · rintro resolving op span target value member setter written - hc hse rfl
    constructor
    · intro h
      obtain ⟨param, hpa, ht⟩ := rendered_compound (targetMutation?_of_thisMember? h) hse rfl rfl hc
      exact ⟨param, hpa, ht.trans (call_whole ..), fun operand _ hw => hw.binds_right,
        fun v hv hsp hb ho hs hp hth n => reads_updaterCall hs hp hth ho hv hsp hb n⟩
    · rintro property optional inner object rfl h
      obtain ⟨param, hpa, ht⟩ := rendered_compound (targetMutation?_of_property h) hse rfl rfl hc
      exact ⟨param, hpa, ht.trans (call_nested ..), fun operand _ hw => hw.binds_right,
        fun v hv hsp hb ho hi hp n allowReturn => reads_propertyUpdate hp hi ho hv hsp hb n allowReturn⟩
  · intro ha hpl op span target value hm
    obtain ⟨resolving, h⟩ := reaches_of_standsAlone hparse hok ha hpl hm rfl
    exact ⟨Node.within_user hparse ha hm rfl, resolving, h, fun he => h.of_emit he⟩

theorem param_of_updaterCall {param param' text : String}
    (h : (updaterCall setter param op text).toList = (updaterCall setter param' op text).toList) : param = param' := by
  simp only [updaterCall, String.toList_append, append_assoc, append_cancel_left_eq] at h
  have hl := congrArg List.length h
  simp only [length_append] at hl
  exact String.toList_inj.mp (append_inj h (by omega)).1

/-- A whole assignment is the value of a compound one: the updater adds the call that the value has become. -/
theorem compound_update_nested : ∃ snippet result span target value,
    Snippet.parse "this.total += this.count = total" .expression = .ok snippet ∧
      updateMembers "this.total += this.count = total" .expression (.setter fun member => some ("set_" ++ member))
        .unresolved = .ok result ∧
      .mk (.assign (.binary "+")) span [target, value] ∈ snippet.root.nodes ∧
      "prevTotal" ∉ references (.mk (.assign (.binary "+")) span [target, value]) ∧
      (updaterCall "set_total" "prevTotal" "+" "set_count(total)").toList <:+:
        SnippetKind.expression.before ++ result.toList ++ SnippetKind.expression.after ∧
      ∀ n, AlwaysReads (Grammar.level n).leftHandSide (updaterCall "set_total" "prevTotal" "+" "set_count(total)") false
        fun read => read.nodes.any
          (·.alike (updaterTerm "set_total" "prevTotal" "+" (.call (.word "set_count") (.word "total"))).tree) := by
  have ht : (Snippet.parse? "this.total += this.count = total" .expression).any (fun snippet =>
      snippet.standsAlone .expression && (snippet.root.nodes.all fun node => !isTypedEvent node) &&
        snippet.root.nodes.any fun node => node.shape == .assign (.binary "+") && node.parts.length == 2 &&
          node.part?.bind thisMember? == some "total" && ([true, false].all fun resolving =>
            rendered snippet.text snippet.user (.setter fun member => some ("set_" ++ member)) .unresolved resolving node ==
              (updaterCall "set_total" "prevTotal" "+" "set_count(total)").toList) &&
          (node.parts.drop 1).all fun value =>
            rendered snippet.text snippet.user (.setter fun member => some ("set_" ++ member)) .unresolved true value ==
              "set_count(total)".toList) = true := by
    decide +kernel
  obtain ⟨snippet, hp, ht⟩ := Snippet.exists_parse_of_any ht
  have ho : updateMembers "this.total += this.count = total" .expression
      (.setter fun member => some ("set_" ++ member)) .unresolved =
        .ok "set_total(prevTotal => prevTotal + set_count(total))" := by
    decide +kernel
  obtain ⟨hw, hs, hr⟩ := compound_update_written _ _ hp ho
  simp only [Bool.and_eq_true, all_eq_true, any_eq_true, Bool.not_eq_true', beq_iff_eq] at ht
  obtain ⟨⟨ha, hpl⟩, ⟨shape, span, parts⟩, hme, ⟨⟨⟨hsh, hsi⟩, hm⟩, hn⟩, hva⟩ := ht
  obtain ⟨target, value, rfl⟩ := length_eq_two.mp hsi
  obtain rfl : shape = .assign (.binary "+") := hsh
  obtain ⟨hc, resolving, hre, hi⟩ := hr ha hpl _ _ _ _ hme
  obtain ⟨param, hpa, hte, -, hra⟩ :=
    (hw _ _ _ _ _ _ _ "set_count(total)" hre hc rfl (by rw [hva value (.head _)]; rfl)).1 hm
  rw [hn resolving (by cases resolving <;> decide)] at hte
  obtain rfl := param_of_updaterCall hte
  have hv : (Term.call (.word "set_count") (.word "total")).Valid ∧ (Term.word "set_total").Valid ∧
      (Term.word "prevTotal").Valid := by
    simp only [Term.Valid]
    decide +kernel
  exact ⟨snippet, _, span, target, value, hp, ho, hme, hpa,
    hn resolving (by cases resolving <;> decide) ▸ hs _ _ (hi fun _ _ => rfl),
    hra _ hv.1 rfl (by decide) (by decide) hv.2.1 hv.2.2 (by decide)⟩

/-- **The value does not hold together:** `this.count -= a - b` becomes an updater that takes `b` from `count - a`. No
difference in it has the value `a - b` on its right side. -/
theorem compound_update_regroups : ∃ snippet, updateMembers "this.count -= a - b;" .statements
        (.setter fun member => if member == "count" then some "setCount" else none) .unresolved =
      .ok "setCount(count => count - a - b);" ∧
    Snippet.parse "setCount(count => count - a - b);" .statements = .ok snippet ∧
    (∃ span left right, .mk (.binary "-") span [left, right] ∈ snippet.root.nodes ∧
      left.span.chars snippet.text = "count - a".toList ∧ right.span.chars snippet.text = "b".toList) ∧
    ∀ span left right, .mk (.binary "-") span [left, right] ∈ snippet.root.nodes →
      right.span.chars snippet.text ≠ "a - b".toList := by
  have ht : (Snippet.parse? "setCount(count => count - a - b);" .statements).any (fun snippet =>
      (snippet.root.nodes.any fun node => node.shape == .binary "-" &&
        node.parts.map (fun part => part.span.chars snippet.text) == ["count - a".toList, "b".toList]) &&
      snippet.root.nodes.all fun node => node.parts.all fun part =>
        part.span.chars snippet.text != "a - b".toList) = true := by
    decide +kernel
  obtain ⟨snippet, hp, ht⟩ := Snippet.exists_parse_of_any ht
  simp only [Bool.and_eq_true, any_eq_true, all_eq_true, beq_iff_eq, bne_iff_ne] at ht
  obtain ⟨⟨⟨shape, span, parts⟩, hm, hs, hte⟩, ha⟩ := ht
  refine ⟨snippet, by decide +kernel, hp, ?_, fun span left right hm => ha _ hm right (by simp [Node.parts])⟩
  obtain ⟨left, rest, rfl, hl, hre⟩ := map_eq_cons_iff.mp hte
  obtain ⟨right, rfl, hr⟩ := map_eq_singleton_iff.mp hre
  obtain rfl : shape = .binary "-" := hs
  exact ⟨span, left, right, hm, hl, hr⟩

end Polyview
