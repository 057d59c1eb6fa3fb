import Polyview.Proofs.Member.Resolution
import Polyview.Proofs.Script.Binding

/-! # Reads that are captured

A resolver may write a member by its bare name. Neither resolving nor updating looks at scopes, so such a read is
captured wherever a variable of this name is in scope: the text that is left reads the variable. A snippet that binds
none of the names that it reads is safe. -/

namespace Polyview

open Script

/-- A read that is captured: it is written as the bare name of its member, in the scope of a variable of this name.
Statements are wrapped in a function, so the name of the wrapper is in scope as well. -/
structure Captured (snippet : Snippet) (r : Resolver) (place : List ℕ) (node : Node) (member : String) : Prop where
  comes : ComesTo snippet.text r snippet.root place node
  inside : node.span.within snippet.user = true
  read : thisMember? node = some member
  bare : r.read member = some member
  bound : member ∈ snippet.root.boundAt place

variable {code : String} {kind : SnippetKind} {snippet : Snippet} {r : Resolver} {place : List ℕ} {node : Node}
  {member : String}

theorem adaptCode_eq_ok {style : UpdateStyle} {result : String} (h : adaptCode code kind style r = .ok result) :
    ∃ updated rewritten, updateMembers code kind style r = .ok updated ∧ Snippet.parse updated kind = .ok rewritten ∧
      kind.before ++ result.toList ++ kind.after = rewritten.resolved r := by
  obtain ⟨updated, hu, hre⟩ := bind_eq_ok.mp h
  obtain ⟨rewritten, hp, -⟩ := bind_eq_ok.mp hre
  obtain ⟨text, ht, hr⟩ := resolveMembers_resolved r hp
  obtain rfl := Except.ok.inj (ht.symm.trans hre)
  exact ⟨updated, rewritten, hu, hp, hr⟩

/-- The resolution comes to every read that is not dropped with an event, whatever is in scope there. -/
theorem comesTo_of_read (hp : Snippet.parse code kind = .ok snippet) (ha : snippet.root.at? place = some node)
    (hr : thisMember? node = some member) (hb : r.read member = some member)
    (hd : ¬Dropped snippet.text r snippet.root place node) : ComesTo snippet.text r snippet.root place node :=
  have hs := (standIn?_of_thisMember? hr).trans hb
  (comesTo_of_standIn? (Snippet.of_parse hp).1 ha hs).resolve_right hd

/-- Where members are resolved while they are updated, a read is written as its stand-in. -/
theorem Updated.rendered_of_thisMember? {source : List Char} {cut : Span} {setterOf : String → Option String}
    {text : String} (h : Updated source cut setterOf r true node) (hr : thisMember? node = some member)
    (ht : r.read member = some text) : rendered source cut (.setter setterOf) r true node = text.toList := by
  obtain ⟨optional, span, object, rfl, -⟩ := thisMember?_eq_some hr
  have hw : written? source cut (.setter setterOf) r true (.mk (.member member optional) span [object]) =
      some text := by
    rw [written?_of_not_call (by rintro _ _ _ ⟨⟩), if_pos rfl, hr, Option.bind_some, ht]
  have hi : span.within cut := within_iff.mpr (h.inCut rfl)
  rw [rendered_of_keep (replacement_of_mutation?_eq_none rfl), hw]
  exact if_pos hi

/-- Nothing is dropped by a resolver that gives nothing for events. -/
theorem not_dropped_of_emit (he : ∀ member args, r.emit member args = none) :
    ¬Dropped snippet.text r snippet.root place node := by
  rintro ⟨outer, event, member, text, i, inner, -, -, hev, hs, -⟩
  rw [standIn?_of_eventOf? hev, he] at hs
  cases hs

/-- **Reads in any scope.** Resolving never fails, and every read that is not dropped with an event is written as what
the resolver gives; if that is the bare name of the member, it is captured exactly if a variable of this name is in
scope. So a captured read has the name of a binding. A body is updated first and then resolved in the same way, and
reads in what is handed to setters are resolved together with the update, and written as the bare name. -/
theorem reads_ignore_scopes (r : Resolver) (hparse : Snippet.parse code kind = .ok snippet) :
    (∃ result, resolveMembers code kind r = .ok result ∧
      kind.before ++ result.toList ++ kind.after = snippet.resolved r) ∧
    (∀ place node member, snippet.root.at? place = some node → thisMember? node = some member →
      r.read member = some member → node.span.within snippet.user = true →
      ¬Dropped snippet.text r snippet.root place node →
      (member.toList <:+: snippet.resolved r ∨
        ∃ outer event, outer <+: place ∧ ComesTo snippet.text r snippet.root outer event ∧
          (standIn? snippet.text r event).isSome ∧
          member.toList <:+: resolvedArguments snippet.text r event.parts.tail) ∧
      (Captured snippet r place node member ↔ member ∈ snippet.root.boundAt place)) ∧
    (∀ place node member, Captured snippet r place node member → member ∈ snippet.root.bindings) ∧
    (∀ style result, adaptCode code kind style r = .ok result →
      ∃ updated rewritten, updateMembers code kind style r = .ok updated ∧ Snippet.parse updated kind = .ok rewritten ∧
        kind.before ++ result.toList ++ kind.after = rewritten.resolved r) ∧
    ∀ setterOf updated node member, updateMembers code kind (.setter setterOf) r = .ok updated →
      Reaches snippet.text snippet.user setterOf r false false snippet.root true node →
      thisMember? node = some member → r.read member = some member →
      rendered snippet.text snippet.user (.setter setterOf) r true node = member.toList ∧
        member.toList <:+: kind.before ++ updated.toList ++ kind.after := by
  refine ⟨resolveMembers_resolved r hparse, fun place node member ha hr hb hi hd => ?_,
    fun place node member hc => snippet.root.boundAt_subset place hc.bound,
    fun style result hrs => adaptCode_eq_ok hrs,
    fun setterOf updated node member ho hra hr hb => ?_⟩
  · have hco := comesTo_of_read hparse ha hr hb hd
    have hw := hco.written hparse ((standIn?_of_thisMember? hr).trans hb)
    rw [fitted, if_pos hi] at hw
    exact ⟨hw, fun hc => hc.bound, fun hbo => ⟨hco, hi, hr, hb, hbo⟩⟩
  · have hu := hra.updated (.of_updateMembers hparse ho)
    have hre := hu.rendered_of_thisMember? hr hb
    exact ⟨hre, hre ▸ hra.infix_result hparse ho⟩

/-- A resolver that writes every member by its bare name. -/
def bareResolver : Resolver where
  read member := some member

/-- Whether a member is read at a place where a variable of its name is in scope. -/
def Script.Snippet.readsBound (snippet : Snippet) (place : List ℕ) (member : String) : Bool :=
  ((snippet.root.at? place).any fun node => thisMember? node == some member && node.span.within snippet.user) &&
    (snippet.root.boundAt place).contains member

theorem Script.Snippet.readsBound_iff : snippet.readsBound place member ↔
    ∃ node, snippet.root.at? place = some node ∧ thisMember? node = some member ∧
      node.span.within snippet.user ∧ member ∈ snippet.root.boundAt place := by
  rw [Script.Snippet.readsBound, Bool.and_eq_true, Option.any_eq_true, List.contains_iff_mem]
  simp only [Bool.and_eq_true, beq_iff_eq, ← exists_and_right, and_assoc]

/-- The parameter of a function captures the read of the member inside. -/
theorem reads_ignore_scopes_parameter : ∃ snippet node,
    Snippet.parse "items.map(count => this.count + count)" .expression = .ok snippet ∧
      Captured snippet bareResolver [0, 0, 0, 1, 0, 1, 0] node "count" ∧
      resolveMembers "items.map(count => this.count + count)" .expression bareResolver =
        .ok "items.map(count => count + count)" := by
  have hp : (Snippet.parse? "items.map(count => this.count + count)" .expression).any
      (·.readsBound [0, 0, 0, 1, 0, 1, 0] "count") = true := by
    decide +kernel
  obtain ⟨snippet, hs, ht⟩ := Snippet.exists_parse_of_any hp
  obtain ⟨node, ha, hr, hi, hb⟩ := Script.Snippet.readsBound_iff.mp ht
  have hc := ((reads_ignore_scopes bareResolver hs).2.1 _ node "count" ha hr rfl hi
    (not_dropped_of_emit fun _ _ => rfl)).2.mpr hb
  exact ⟨snippet, node, hs, hc, by decide +kernel⟩

/-- **A read that a local captures:** the result is that of the text which reads the local twice. -/
theorem read_captured_by_local : ∃ snippet node,
    Snippet.parse "const count = 1; return this.count + count;" .statements = .ok snippet ∧
      Captured snippet bareResolver [0, 2, 1, 0, 0] node "count" ∧
      resolveMembers "const count = 1; return this.count + count;" .statements bareResolver =
        .ok "const count = 1; return count + count;" ∧
      resolveMembers "const count = 1; return count + count;" .statements bareResolver =
        .ok "const count = 1; return count + count;" := by
  have hp : (Snippet.parse? "const count = 1; return this.count + count;" .statements).any
      (·.readsBound [0, 2, 1, 0, 0] "count") = true := by
    decide +kernel
  obtain ⟨snippet, hs, ht⟩ := Snippet.exists_parse_of_any hp
  obtain ⟨node, ha, hr, hi, hb⟩ := Script.Snippet.readsBound_iff.mp ht
  have hc := comesTo_of_read (r := bareResolver) hs ha hr rfl (not_dropped_of_emit fun _ _ => rfl)
  exact ⟨snippet, node, hs, ⟨hc, hi, hr, rfl, hb⟩, by decide +kernel, by decide +kernel⟩

end Polyview
