import Mathlib.Data.List.Forall2
import Polyview.Proofs.Member.Reads
import Polyview.Proofs.Order.Topological

/-! # The order of snippets that refer to each other

Methods and computed values are listed by name. Item `i` *refers* to item `j` if its text names the other as
`this.name` at some place, and the scan *finds* the reference if it does not miss all of these places.

Where no item refers to itself by way of others, `orderByReferences` succeeds. It lists all items, and each
behind those to which the scan finds a reference; of all orders that do so it is the first one. So an item
stands behind all that it refers to exactly if the references that the scan misses happen to be in order
(`orderByReferences_spec`). -/

namespace Polyview

open List Script

/-! ### References -/

section

variable (kind : SnippetKind) (items : List (String × String))

/-- All items have texts that can be read. -/
def Readable : Prop := ∀ item ∈ items, ∃ snippet, Snippet.parse item.2 kind = .ok snippet

/-- Item `i` names item `j` as `this.name`. -/
def Refers (i j : ℕ) : Prop :=
  ∃ item snippet other place, items[i]? = some item ∧ Snippet.parse item.2 kind = .ok snippet ∧
    items[j]? = some other ∧ thisNameAt? snippet.root place = some other.1

/-- Item `i` names item `j` at a place that the scan does not miss. -/
def FindsReference (i j : ℕ) : Prop :=
  ∃ item snippet other place, items[i]? = some item ∧ Snippet.parse item.2 kind = .ok snippet ∧
    items[j]? = some other ∧ thisNameAt? snippet.root place = some other.1 ∧
    ReactiveScope.misses { members := items.map Prod.fst } snippet.root place = false

/-- Item `i` names item `j`, but only at places that the scan misses. -/
def MissesReference (i j : ℕ) : Prop := Refers kind items i j ∧ ¬ FindsReference kind items i j

/-- No item refers to itself by way of others. -/
def AcyclicReferences : Prop := ∀ i, ¬ Relation.TransGen (fun i j => Refers kind items i j ∧ j ≠ i) i i

end

/-- In an order, every item stands behind the others that it is related to. -/
def Behind (order : List ℕ) (related : ℕ → ℕ → Prop) : Prop :=
  ∀ before i after, order = before ++ i :: after → ∀ j, related i j → j ≠ i → j ∈ before

variable {kind : SnippetKind} {items : List (String × String)}

theorem FindsReference.refers {i j : ℕ} (h : FindsReference kind items i j) : Refers kind items i j := by
  obtain ⟨item, snippet, other, place, hi, hp, ho, hn, -⟩ := h
  exact ⟨item, snippet, other, place, hi, hp, ho, hn⟩

/-- What is found when only members are looked for. -/
theorem ReactiveScope.finds_members_iff {members : List String} {isBound : String → Bool} {root : Node}
    {name : String} (hna : name ∈ members) : ReactiveScope.Finds { members } isBound root name ↔
      ∃ place, thisNameAt? root place = some name ∧ ReactiveScope.misses { members } root place = false := by
  constructor
  · rintro ⟨place, node, hn, hs, ⟨ha, -⟩ | ⟨-, hf, -⟩⟩
    · refine ⟨place, ?_, by simp [misses, hs, hn, ha]⟩
      rw [thisNameAt?, hn, Option.bind_some]
      unfold thisName?
      split
      · simp [thisMember?] at ha
      · exact ha
    · simp at hf
  · rintro ⟨place, hat, hm⟩
    exact finds_of_not_misses hat hna hm

/-! ### Dependencies by index -/

/-- A run over a list succeeds if it does on every element. -/
theorem exists_mapM_eq_ok {α β : Type} {f : α → Except Error β} {P : α → β → Prop} :
    ∀ {l : List α}, (∀ a ∈ l, ∃ b, f a = .ok b ∧ P a b) → ∃ bs, l.mapM f = .ok bs ∧ List.Forall₂ P l bs
  | [], _ => ⟨[], rfl, .nil⟩
  | a :: l, h => by
    obtain ⟨b, hb, hp⟩ := h a (by simp)
    obtain ⟨bs, hbs, hps⟩ := exists_mapM_eq_ok fun a ha => h a (.tail _ ha)
    refine ⟨b :: bs, ?_, .cons hp hps⟩
    rw [mapM_cons, hb, hbs]
    rfl

/-- Where names are distinct, a name is looked up at its index. -/
theorem findIdx?_beq_eq_some_iff {names : List String} (h : names.Nodup) {name : String} {j : ℕ} :
    names.findIdx? (· == name) = some j ↔ names[j]? = some name := by
  rw [findIdx?_eq_some_iff_getElem]
  constructor
  · rintro ⟨hj, heq, -⟩
    rw [getElem?_eq_getElem hj, beq_iff_eq.mp heq]
  · intro hj
    obtain ⟨hl, heq⟩ := List.getElem?_eq_some_iff.mp hj
    refine ⟨hl, by simp [heq], fun k hk hb => ?_⟩
    have : names[k] = names[j] := by rw [heq]; simpa using hb
    have := (List.Nodup.getElem_inj_iff h).mp this
    omega

/-- The indices that are looked up for an item are those of the items that the scan finds in its text. -/
theorem exists_referencedIndices (hnm : (items.map Prod.fst).Nodup) {code : String} {snippet : Snippet}
    (hpa : Snippet.parse code kind = .ok snippet) : ∃ dep, referencedIndices kind (items.map Prod.fst) code = .ok dep ∧
      ∀ j, j ∈ dep ↔ ∃ other place, items[j]? = some other ∧ thisNameAt? snippet.root place = some other.1 ∧
        ReactiveScope.misses { members := items.map Prod.fst } snippet.root place = false := by
  obtain ⟨found, hf, -, hme⟩ := inferDependencies_eq_ok { members := items.map Prod.fst } hpa
  refine ⟨found.filterMap fun name => (items.map Prod.fst).findIdx? (· == name), ?_, fun j => ?_⟩
  · rw [referencedIndices, referencedMembers, hf]
    rfl
  · simp only [mem_filterMap, findIdx?_beq_eq_some_iff hnm, getElem?_map, Option.map_eq_some_iff]
    constructor
    · rintro ⟨_, hn, other, ho, rfl⟩
      have hm : other.1 ∈ items.map Prod.fst := mem_map_of_mem (mem_of_getElem? ho)
      obtain ⟨place, hp⟩ := (ReactiveScope.finds_members_iff hm).mp ((hme _).mp hn)
      exact ⟨other, place, ho, hp⟩
    · rintro ⟨other, place, ho, hp⟩
      have hm : other.1 ∈ items.map Prod.fst := mem_map_of_mem (mem_of_getElem? ho)
      exact ⟨other.1, (hme _).mpr ((ReactiveScope.finds_members_iff hm).mpr ⟨place, hp⟩), other, ho, rfl⟩

/-- The dependencies that are computed for the items are the references that the scan finds. -/
theorem exists_references (hn : (items.map Prod.fst).Nodup) (hr : Readable kind items) :
    ∃ deps, orderByReferences kind items = .ok (Order.stableOrder deps) ∧ deps.length = items.length ∧
      ∀ i j, j ∈ deps.getD i [] ↔ FindsReference kind items i j := by
  have hs : ∀ item ∈ items, ∃ dep, referencedIndices kind (items.map Prod.fst) item.2 = .ok dep ∧
      ∃ snippet, Snippet.parse item.2 kind = .ok snippet ∧ ∀ j, j ∈ dep ↔ ∃ other place, items[j]? = some other ∧
          thisNameAt? snippet.root place = some other.1 ∧
          ReactiveScope.misses { members := items.map Prod.fst } snippet.root place = false := by
    intro item hit
    obtain ⟨snippet, hp⟩ := hr item hit
    obtain ⟨dep, hde, hm⟩ := exists_referencedIndices hn hp
    exact ⟨dep, hde, snippet, hp, hm⟩
  obtain ⟨deps, hd, ha⟩ := exists_mapM_eq_ok hs
  obtain ⟨hl, hg⟩ := forall₂_iff_get.mp ha
  refine ⟨deps, ?_, hl.symm, fun i j => ?_⟩
  · unfold orderByReferences
    rw [hd]
    rfl
  · rcases Nat.lt_or_ge i items.length with hi | hi
    · obtain ⟨snippet, hp, hm⟩ := hg i hi (hl ▸ hi)
      rw [getD_eq_getElem _ _ (hl ▸ hi)]
      refine (hm j).trans ⟨?_, ?_⟩
      · rintro ⟨other, place, hf⟩
        exact ⟨items[i], snippet, other, place, getElem?_eq_getElem hi, hp, hf⟩
      · rintro ⟨item, snippet', other, place, hit, hp', hf⟩
        rw [getElem?_eq_getElem hi, Option.some.injEq] at hit
        subst hit
        cases hp.symm.trans hp'
        exact ⟨other, place, hf⟩
    · rw [getD_eq_default _ _ (hl ▸ hi)]
      constructor
      · simp
      · rintro ⟨item, _, _, _, hit, _⟩
        rw [getElem?_eq_none hi] at hit
        cases hit

/-- An order of all items, each behind those to which the scan finds a reference, and the first of all
orders of this kind. -/
structure FollowsReferences (kind : SnippetKind) (items : List (String × String)) (order : List ℕ) : Prop where
  perm : order.Perm (List.range items.length)
  behind : Behind order (FindsReference kind items)
  first : ∀ other, other.Perm (List.range items.length) → Behind other (FindsReference kind items) → order ≤ other

/-- **The order of items by reference** exists and follows the references that the scan finds. -/
theorem orderByReferences_follows (hnm : (items.map Prod.fst).Nodup) (hre : Readable kind items)
    (hac : AcyclicReferences kind items) :
    ∃ order, orderByReferences kind items = .ok order ∧ FollowsReferences kind items order := by
  obtain ⟨deps, hru, hle, hd⟩ := exists_references hnm hre
  have ha : ∀ i j, Order.Awaits deps i j ↔ FindsReference kind items i j ∧ j ≠ i := fun i j =>
    and_congr_left fun _ => hd i j
  have hr : Order.InRange deps := by
    intro l hl j hj
    obtain ⟨i, hi⟩ := mem_iff_getElem?.mp hl
    obtain ⟨_, _, other, _, _, _, hot, _⟩ := (hd i j).mp (by simpa [hi] using hj)
    rw [hle]
    exact (List.getElem?_eq_some_iff.mp hot).1
  have ha' : Order.Acyclic deps := by
    intro i hi
    refine hac i (Relation.TransGen.mono (fun i j hij => ?_) i i hi)
    obtain ⟨hf, hn⟩ := (ha i j).mp hij
    exact ⟨hf.refers, hn⟩
  have ht := Order.stableOrder_topological hr ha'
  refine ⟨Order.stableOrder deps, hru, hle ▸ ht.perm, ?_, fun other hp hb => ?_⟩
  · intro before i after ho j hj hn
    exact ht.behind before i after ho j ((ha i j).mpr ⟨hj, hn⟩)
  · refine Order.stableOrder_le hr ha' ⟨hle ▸ hp, fun before i after ho j hj => ?_⟩
    obtain ⟨hf, hn⟩ := (ha i j).mp hj
    exact hb before i after ho j hf hn

/-- An order that follows the found references follows all of them exactly if it follows the missed ones. -/
theorem FollowsReferences.behind_refers_iff {order : List ℕ} (h : FollowsReferences kind items order) :
    Behind order (Refers kind items) ↔ Behind order (MissesReference kind items) := by
  constructor
  · intro ha before i after ho j hj hn
    exact ha before i after ho j hj.1 hn
  · intro hm before i after ho j hj hn
    by_cases hf : FindsReference kind items i j
    · exact h.behind before i after ho j hf hn
    · exact hm before i after ho j ⟨hj, hf⟩ hn

/-- An item refers only to items whose names occur in the tree of its text. -/
theorem Refers.mem_names {i j : ℕ} {item other : String × String} {snippet : Snippet}
    (h : Refers kind items i j) (hi : items[i]? = some item)
    (hp : Snippet.parse item.2 kind = .ok snippet) (ho : items[j]? = some other) :
    other.1 ∈ snippet.root.nodes.filterMap thisName? := by
  obtain ⟨item', snippet', other', place, hi', hp', ho', hn⟩ := h
  cases hi.symm.trans hi'
  cases hp.symm.trans hp'
  cases ho.symm.trans ho'
  obtain ⟨node, hno, hn⟩ := Option.bind_eq_some_iff.mp hn
  exact mem_filterMap.mpr ⟨node, Node.mem_nodes_iff.mpr ⟨place, hno⟩, hn⟩

/-! ### Methods and computed values -/

/-- The names and bodies of methods. -/
def methodTexts (methods : List Method) : List (String × String) := methods.map fun m => (m.name, m.body)

/-- The names and expressions of computed values. -/
def computedTexts (computed : List ComputedField) : List (String × String) :=
  computed.map fun m => (m.name, m.expression)

/-- **Ordering.** Items with acyclic dependencies are put into the first topological order. Methods, and
computed values, with distinct names, readable texts and acyclic references are put into the first order
that follows the references which the scan finds; it follows all references exactly if it follows those
which the scan misses. -/
theorem order_follows_references (deps : List (List ℕ)) (methods : List Method)
    (computed : List ComputedField) :
    (Order.InRange deps → Order.Acyclic deps → Order.stableOrder? deps = some (Order.stableOrder deps) ∧
      Order.Topological deps (Order.stableOrder deps) ∧
      ∀ order, Order.Topological deps order → Order.stableOrder deps ≤ order) ∧
    ((methods.map (·.name)).Nodup → Readable .statements (methodTexts methods) →
      AcyclicReferences .statements (methodTexts methods) →
      ∃ order, orderMethods methods = .ok order ∧ FollowsReferences .statements (methodTexts methods) order ∧
        (Behind order (Refers .statements (methodTexts methods)) ↔
          Behind order (MissesReference .statements (methodTexts methods)))) ∧
    ((computed.map (·.name)).Nodup → Readable .expression (computedTexts computed) →
      AcyclicReferences .expression (computedTexts computed) →
      ∃ order, orderComputed computed = .ok order ∧ FollowsReferences .expression (computedTexts computed) order ∧
        (Behind order (Refers .expression (computedTexts computed)) ↔
          Behind order (MissesReference .expression (computedTexts computed)))) := by
  refine ⟨fun hr ha => ?_, fun hn hre ha => ?_, fun hn hre ha => ?_⟩
  · exact ⟨Order.stableOrder?_of_inRange hr, Order.stableOrder_topological hr ha,
      fun order ho => Order.stableOrder_le hr ha ho⟩
  · have hn' : ((methodTexts methods).map Prod.fst).Nodup := by
      rw [methodTexts, map_map]
      exact hn
    obtain ⟨order, hru, hf⟩ := orderByReferences_follows hn' hre ha
    exact ⟨order, hru, hf, hf.behind_refers_iff⟩
  · have hn' : ((computedTexts computed).map Prod.fst).Nodup := by
      rw [computedTexts, map_map]
      exact hn
    obtain ⟨order, hru, hf⟩ := orderByReferences_follows hn' hre ha
    exact ⟨order, hru, hf, hf.behind_refers_iff⟩

theorem readable_of_all (h : items.all (fun item => (Snippet.parse? item.2 kind).isSome)) :
    Readable kind items := by
  intro item hi
  obtain ⟨snippet, hp⟩ := Option.isSome_iff_exists.mp (all_eq_true.mp h item hi)
  exact ⟨snippet, Snippet.parse_eq_ok.mpr hp⟩

/-- Two items of which the second refers to nothing have no cycle of references. -/
theorem acyclicReferences_pair {first second : String × String} (h : (Snippet.parse? second.2 kind).any
      (fun snippet => (snippet.root.nodes.filterMap thisName?).isEmpty) = true) :
    AcyclicReferences kind [first, second] := by
  obtain ⟨snippet, hp, hn⟩ := Snippet.exists_parse_of_any h
  refine Order.not_transGen_of_lt fun i j ⟨hi, hne⟩ => ?_
  match i with
  | 0 => omega
  | 1 =>
    obtain ⟨_, _, other, _, _, _, ho, _⟩ := id hi
    have hm := hi.mem_names rfl hp ho
    rw [List.isEmpty_iff.mp hn] at hm
    simp at hm
  | i + 2 =>
    obtain ⟨item, _, _, _, hit, _⟩ := hi
    simp at hit

/-- Two methods of which the first calls the second. -/
def callerFirst : List Method := [{ name := "a", body := "this.b();" }, { name := "b", body := "return 1;" }]

/-- Two computed values of which the first reads the second. -/
def readerFirst : List ComputedField :=
  [{ name := "label", expression := "this.total + 1" }, { name := "total", expression := "2" }]

theorem order_follows_references_pairs : Order.Topological [[1], []] (Order.stableOrder [[1], []]) ∧
    (∃ order, orderMethods callerFirst = .ok order ∧ FollowsReferences .statements (methodTexts callerFirst) order) ∧
    ∃ order, orderComputed readerFirst = .ok order ∧
      FollowsReferences .expression (computedTexts readerFirst) order := by
  obtain ⟨hde, hm, hc⟩ := order_follows_references [[1], []] callerFirst readerFirst
  refine ⟨?_, ?_, ?_⟩
  · refine (hde (by unfold Order.InRange; decide) (Order.not_transGen_of_lt fun i d ⟨hd, hn⟩ => ?_)).2.1
    match i, hd with
    | 0, hd => omega
    | 1, hd => simp at hd
    | i + 2, hd => simp at hd
  · obtain ⟨order, hr, hf, -⟩ := hm (by decide)
      (readable_of_all (by decide +kernel)) (acyclicReferences_pair (by decide +kernel))
    exact ⟨order, hr, hf⟩
  · obtain ⟨order, hr, hf, -⟩ := hc (by decide)
      (readable_of_all (by decide +kernel)) (acyclicReferences_pair (by decide +kernel))
    exact ⟨order, hr, hf⟩

/-- Two methods of which the first names the second in a tag. -/
def tagFirst : List Method := [{ name := "a", body := "return <this.b/>;" }, { name := "b", body := "return 1;" }]

/-- The name of a tag is missed: the first method refers to the second one, but stays in front of it. -/
theorem orderMethods_misses_tag : (tagFirst.map (·.name)).Nodup ∧ Readable .statements (methodTexts tagFirst) ∧
      AcyclicReferences .statements (methodTexts tagFirst) ∧ orderMethods tagFirst = .ok [0, 1] ∧
      ¬ Behind [0, 1] (Refers .statements (methodTexts tagFirst)) := by
  have hp : (Snippet.parse? "return <this.b/>;" .statements).any (fun snippet =>
      thisNameAt? snippet.root [0, 2, 0, 0, 0, 0] == some "b") = true := by decide +kernel
  obtain ⟨snippet, hs, hn⟩ := Snippet.exists_parse_of_any hp
  have hr : Refers .statements (methodTexts tagFirst) 0 1 :=
    ⟨_, snippet, _, [0, 2, 0, 0, 0, 0], rfl, hs, rfl, beq_iff_eq.mp hn⟩
  refine ⟨by decide, readable_of_all (by decide +kernel), acyclicReferences_pair (by decide +kernel),
    by decide +kernel, fun hb => ?_⟩
  have hm := hb [] 0 [1] rfl 1 hr (by omega)
  simp at hm

end Polyview
