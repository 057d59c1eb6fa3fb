import Polyview.Proofs.Backend.Declarations
import Polyview.Proofs.Unit.Roles

/-! # Declared before use

A memoized member lists the names that it depends on, and the list is evaluated where it stands. So a name has to be a
parameter, or to be declared in front of it.

Members are declared role by role: what depends on nothing first, then computed values, then methods, both in the
order of their references. A computed value may read methods, which stand behind all computed values. So, where
members have distinct names and refer to each other without a cycle, all dependencies are declared in front except
those of computed values on methods (`dependencies_declared_iff`). -/

namespace Polyview

open List Script Text

variable {after before declared : List Declaration} {declaration : Declaration} {name : String} {order : List ℕ}

/-! ### Fewer members with a setter -/

namespace ReactiveScope

variable {scope wider : ReactiveScope} {node : Node}

theorem changes_mono (h : scope.stateful ⊆ wider.stateful) (hc : scope.changes node) :
    wider.changes node := by
  unfold changes at hc ⊢
  split at hc
  · simp only [contains_iff_mem] at hc ⊢
    exact h hc
  · cases hc

theorem skipsCallee_mono (h : scope.stateful ⊆ wider.stateful) (hs : scope.skipsCallee node) :
    wider.skipsCallee node := by
  unfold skipsCallee at hs ⊢
  split at hs
  · simp only [contains_iff_mem] at hs ⊢
    exact h hs
  · exact hs

/-- A scan with fewer setters passes over less. -/
theorem passesOver_mono (h : scope.stateful ⊆ wider.stateful) {place : List ℕ}
    (hover : scope.passesOver node place) : wider.passesOver node place := by
  unfold passesOver at hover ⊢
  split at hover
  case h_1 => rfl
  case h_2 => exact hover
  case h_3 =>
    rw [Bool.and_eq_true] at hover ⊢
    exact ⟨changes_mono h hover.1, hover.2⟩
  case h_4 => exact changes_mono h hover
  case h_5 => exact skipsCallee_mono h hover
  case h_6 =>
    rw [Bool.and_eq_true] at hover ⊢
    exact ⟨skipsCallee_mono h hover.1, hover.2⟩
  case h_7 => cases hover

/-- A scan with fewer setters sees more. -/
theorem sees_mono (h : scope.stateful ⊆ wider.stateful) {place : List ℕ} (hs : wider.sees node place) :
    scope.sees node place := by
  induction place generalizing node with
  | nil => rfl
  | cons i place ih =>
    cases hp : node.parts[i]? with
    | none => simp [sees, hp] at hs
    | some part =>
      rw [sees_cons hp] at hs ⊢
      refine ⟨?_, ih hs.2⟩
      rw [Bool.eq_false_iff]
      intro hover
      exact absurd (passesOver_mono h hover) (by simp [hs.1])

/-- What is found is a variable, or a member that every scan for members alone finds as well. -/
theorem Finds.free_or_member {isBound : String → Bool} {root : Node} (h : scope.Finds isBound root name) :
    name ∈ scope.free ∨
      name ∈ scope.members ∧ ∀ members, name ∈ members → Finds { members } isBound root name := by
  obtain ⟨place, node, hno, hs, ⟨ha, hm⟩ | ⟨-, hf, -⟩⟩ := h
  · refine Or.inr ⟨hm, fun members hn => ⟨place, node, hno, ?_, Or.inl ⟨ha, hn⟩⟩⟩
    exact sees_mono (nil_subset _) hs
  · exact Or.inl hf

end ReactiveScope

namespace React

/-! ### References between computed values and methods -/

/-- Computed values and methods: name, kind of code, and code. -/
def memoized (c : Component) : List (String × SnippetKind × String) :=
  c.computed.map (fun m => (m.name, .expression, m.expression)) ++ c.methods.map fun m => (m.name, .statements, m.body)

/-- A computed value or a method names another one as `this.name`. -/
def RefersTo (c : Component) (name other : String) : Prop :=
  ∃ kind code snippet place, (name, kind, code) ∈ memoized c ∧ Snippet.parse code kind = .ok snippet ∧
    other ∈ (memoized c).map Prod.fst ∧ thisNameAt? snippet.root place = some other

/-- No computed value or method refers to itself by way of others. -/
def AcyclicMembers (c : Component) : Prop :=
  ∀ name, ¬ Relation.TransGen (fun name other => RefersTo c name other ∧ other ≠ name) name name

variable {c : Component} {kind : SnippetKind} {items : List (String × String)}

/-- The name of the item at an index. -/
def nameAt (items : List (String × String)) (i : ℕ) : String := (items[i]?.map Prod.fst).getD ""

theorem nameAt_eq {i : ℕ} {item : String × String} (h : items[i]? = some item) : nameAt items i = item.1 := by
  rw [nameAt, h, Option.map_some, Option.getD_some]

/-- Without a cycle among all there is none among some of them. -/
theorem AcyclicMembers.of_items (h : AcyclicMembers c) (hnames : (items.map Prod.fst).Nodup)
    (hie : ∀ item ∈ items, (item.1, kind, item.2) ∈ memoized c) : AcyclicReferences kind items := by
  intro i hi
  refine h (nameAt items i) (Relation.TransGen.lift (nameAt items) (fun i j hij => ?_) i i hi)
  change RefersTo c (nameAt items i) (nameAt items j) ∧ nameAt items j ≠ nameAt items i
  obtain ⟨⟨item, snippet, other, place, hit, hp, ho, hn⟩, hne⟩ := hij
  rw [nameAt_eq hit, nameAt_eq ho]
  have hm := hie other (mem_of_getElem? ho)
  refine ⟨⟨kind, item.2, snippet, place, hie item (mem_of_getElem? hit), hp,
    mem_map_of_mem (f := Prod.fst) hm, hn⟩, fun heq => hne ?_⟩
  -- equal names stand at equal indices
  have hi : (items.map Prod.fst)[i]? = some item.1 := by rw [getElem?_map, hit, Option.map_some]
  have hj : (items.map Prod.fst)[j]? = some item.1 := by rw [getElem?_map, ho, Option.map_some, heq]
  obtain ⟨_, hi⟩ := List.getElem?_eq_some_iff.mp hi
  obtain ⟨_, hj⟩ := List.getElem?_eq_some_iff.mp hj
  exact hnames.getElem_inj_iff.mp (hj.trans hi.symm)

/-! ### Dependencies in front -/

/-- The dependencies of a member are what its code reads, without the member itself. -/
theorem exists_mem_dependencyNames_iff {own code : String} {deps : List String}
    (h : dependencyNames c own kind code = .ok deps) :
    ∃ snippet, Snippet.parse code kind = .ok snippet ∧ ∀ name, name ∈ deps ↔
      (reactiveScope c).Finds snippet.root.bindings.contains snippet.root name ∧ name ≠ own := by
  obtain ⟨found, hf, h⟩ := bind_eq_ok.mp h
  cases h
  obtain ⟨snippet, hp, -⟩ := bind_eq_ok.mp hf
  obtain ⟨found', hf', -, hm⟩ := inferDependencies_eq_ok (reactiveScope c) hp
  cases hf.symm.trans hf'
  refine ⟨snippet, hp, fun name => ?_⟩
  rw [mem_filter, hm, bne_iff_ne]

theorem mem_names_of_finds {front rest : List ℕ} {i : ℕ} {item : String × String} {snippet : Snippet}
    {isBound : String → Bool} (hfo : FollowsReferences kind items order)
    (hdc : List.Forall₂ (fun item declaration => declaration.names = [item.1]) items declared)
    (hs : order = front ++ i :: rest) (hi : items[i]? = some item)
    (hp : Snippet.parse item.2 kind = .ok snippet) (hm : name ∈ items.map Prod.fst) (hn : name ≠ item.1)
    (hf : ReactiveScope.Finds { members := items.map Prod.fst } isBound snippet.root name) :
    name ∈ (front.filterMap fun i => declared[i]?).flatMap Declaration.names := by
  obtain ⟨place, hpl, hmi⟩ := (ReactiveScope.finds_members_iff hm).mp hf
  obtain ⟨other, ho, rfl⟩ := mem_map.mp hm
  obtain ⟨j, hj⟩ := mem_iff_getElem?.mp ho
  have hfr : j ∈ front := by
    refine hfo.behind front i rest hs j ⟨item, snippet, other, place, hi, hp, hj, hpl, hmi⟩ ?_
    rintro rfl
    exact hn (congrArg Prod.fst (Option.some.inj (hj.symm.trans hi)))
  obtain ⟨declaration, hd, how⟩ := exists_getElem?_of_forall₂ hdc hj
  refine mem_flatMap.mpr ⟨declaration, mem_filterMap.mpr ⟨j, hfr, hd⟩, ?_⟩
  simp [how]

/-- A declaration in a list of picked ones stands where its index does. -/
theorem exists_split_of_pick (h : (order.filterMap fun i => declared[i]?) = before ++ declaration :: after) :
    ∃ front i rest, order = front ++ i :: rest ∧ declared[i]? = some declaration ∧
      (front.filterMap fun i => declared[i]?) = before := by
  obtain ⟨front, back, rfl, hf, hb⟩ := filterMap_eq_append_iff.mp h
  obtain ⟨skipped, i, rest, rfl, hs, hi, -⟩ := filterMap_eq_cons_iff.mp hb
  refine ⟨front ++ skipped, i, rest, by rw [append_assoc], hi, ?_⟩
  rw [filterMap_append, hf, filterMap_eq_nil_iff.mpr hs, append_nil]

theorem split_append {α : Type} {xs ys before after : List α} {x : α} (h : xs ++ ys = before ++ x :: after) :
    (∃ rest, xs = before ++ x :: rest) ∨ ∃ front, before = xs ++ front ∧ ys = front ++ x :: after := by
  rcases append_eq_append_iff.mp h with ⟨front, rfl, rfl⟩ | ⟨front, rfl, hf⟩
  · exact Or.inr ⟨front, rfl, rfl⟩
  · cases front with
    | nil => exact Or.inr ⟨[], by simp, by simpa using hf.symm⟩
    | cons y front =>
      cases hf
      exact Or.inl ⟨front, rfl⟩

/-- Computed values or methods with their declarations and their order. -/
structure Memoizes (c : Component) (kind : SnippetKind) (items : List (String × String))
    (declared : List Declaration) (order : List ℕ) : Prop where
  memoized : ∀ item ∈ items, (item.1, kind, item.2) ∈ memoized c
  names : List.Forall₂ (fun item declaration => declaration.names = [item.1]) items declared
  dependencies : List.Forall₂ (fun item declaration =>
    dependencyNames c item.1 kind item.2 = .ok declaration.dependencies) items declared
  order : orderByReferences kind items = .ok order

theorem Memoizes.follows (h : Memoizes c kind items declared order) (hnames : (items.map Prod.fst).Nodup)
    (hacyclic : AcyclicMembers c) : FollowsReferences kind items order := by
  have hr : Readable kind items := by
    intro item hit
    obtain ⟨i, hi⟩ := mem_iff_getElem?.mp hit
    obtain ⟨declaration, -, hd⟩ := exists_getElem?_of_forall₂ h.dependencies hi
    obtain ⟨snippet, hp, -⟩ := exists_mem_dependencyNames_iff hd
    exact ⟨snippet, hp⟩
  obtain ⟨order', ho, hf⟩ := orderByReferences_follows hnames hr (hacyclic.of_items hnames h.memoized)
  cases h.order.symm.trans ho
  exact hf

/-- A dependency is a setter, or a member; if it has the same role it is declared in front. -/
theorem Memoizes.dependency (h : Memoizes c kind items declared order) (hnames : (items.map Prod.fst).Nodup)
    (hacyclic : AcyclicMembers c) (hs : (order.filterMap fun i => declared[i]?) = before ++ declaration :: after)
    (hn : name ∈ declaration.dependencies) : name ∈ setterNames c ∨ name ∈ (reactiveScope c).members ∧
      (name ∈ items.map Prod.fst → name ∈ before.flatMap Declaration.names) := by
  obtain ⟨front, i, rest, ho, hd, rfl⟩ := exists_split_of_pick hs
  obtain ⟨item, hi, hde⟩ := exists_getElem?_of_forall₂ h.dependencies.flip hd
  obtain ⟨snippet, hp, hme⟩ := exists_mem_dependencyNames_iff hde
  obtain ⟨hf, hne⟩ := (hme name).mp hn
  rcases hf.free_or_member with hfr | ⟨hm, hf⟩
  · exact Or.inl hfr
  · exact Or.inr ⟨hm, fun hr => mem_names_of_finds (h.follows hnames hacyclic) h.names ho hi hp
      hr hne (hf _ hr)⟩

theorem Declared.memoizes_computed (g : Declared c) :
    Memoizes c .expression (computedTexts c.computed) g.computed g.computedOrder where
  memoized := by
    intro item hi
    obtain ⟨m, hm, rfl⟩ := mem_map.mp hi
    exact mem_append_left _ (mem_map_of_mem hm)
  names := forall₂_map_left_iff.mpr (g.computed_eq.imp fun _ _ => names_of_declareComputed)
  dependencies := by
    refine forall₂_map_left_iff.mpr (g.computed_eq.imp fun m declaration h => ?_)
    obtain ⟨deps, value, hd, -, rfl⟩ := declareComputed_eq_ok h
    exact hd
  order := g.computedOrder_eq

theorem Declared.memoizes_methods (g : Declared c) :
    Memoizes c .statements (methodTexts c.methods) g.methods g.methodOrder where
  memoized := by
    intro item hi
    obtain ⟨m, hm, rfl⟩ := mem_map.mp hi
    exact mem_append_right _ (mem_map_of_mem hm)
  names := forall₂_map_left_iff.mpr (g.methods_eq.imp fun _ _ => names_of_declareMethod)
  dependencies := by
    refine forall₂_map_left_iff.mpr (g.methods_eq.imp fun m declaration h => ?_)
    obtain ⟨deps, body, hd, -, rfl⟩ := declareMethod_eq_ok h
    exact hd
  order := g.methodOrder_eq

/-! ### All declarations -/

theorem Declared.mem_names_leading (g : Declared c) :
    name ∈ g.leading.flatMap Declaration.names ↔ name ∈ c.state.map StateField.name ∨ name ∈ setterNames c ∨
      name ∈ c.refs.map RefField.name ∨ name ∈ c.injects.map InjectField.name ∨
      name ∈ c.providers.map ProviderField.name := by
  have hs : name ∈ c.state.flatMap (fun m => [m.name, setterName m.name]) ↔
      name ∈ c.state.map StateField.name ∨ name ∈ setterNames c := by
    simp only [setterNames, mem_flatMap, mem_map, mem_cons, not_mem_nil, or_false]
    grind
  rw [g.names_leading, mem_append, mem_append, mem_append, hs]
  simp only [or_assoc]

/-- A setter, and a member that is no computed value and no method, is at hand behind the leading declarations. -/
theorem Declared.mem_of_leading (g : Declared c) {others : List Declaration}
    (h : name ∈ setterNames c ∨ name ∈ (reactiveScope c).members ∧
      name ∉ c.computed.map ComputedField.name ∧ name ∉ c.methods.map Method.name) :
    name ∈ parameterNames c ++ (g.leading ++ others).flatMap Declaration.names := by
  simp only [parameterNames, flatMap_append, mem_append, g.mem_names_leading]
  simp only [reactiveScope, mem_append] at h
  tauto

/-- What stands in front of the methods declares no method, unless as a setter. -/
theorem Declared.setter_of_method (g : Declared c) (hnames : (memberNames c).Nodup) {front : List Declaration}
    (hf : front ⊆ g.orderedComputed) (hme : name ∈ c.methods.map Method.name)
    (h : name ∈ parameterNames c ++ (g.leading ++ front).flatMap Declaration.names) : name ∈ setterNames c := by
  have ho := fun hm => (nodup_append.mp hnames).2.2 name hm name hme rfl
  have hc : name ∈ front.flatMap Declaration.names → name ∈ c.computed.map ComputedField.name := by
    intro hn
    obtain ⟨declaration, hm, hn⟩ := mem_flatMap.mp hn
    exact g.names_orderedComputed.mem_iff.mp (mem_flatMap.mpr ⟨declaration, hf hm, hn⟩)
  simp only [mem_append] at ho
  simp only [parameterNames, flatMap_append, mem_append, g.mem_names_leading] at h
  tauto

theorem Declared.dependencies_leading (g : Declared c) (h : declaration ∈ g.leading) :
    declaration.dependencies = [] := by
  simp only [leading, mem_append, mem_map] at h
  rcases h with ((hs | ⟨m, -, rfl⟩) | ⟨m, -, rfl⟩) | hp
  · obtain ⟨i, hi⟩ := mem_iff_getElem?.mp hs
    obtain ⟨m, -, hm⟩ := exists_getElem?_of_forall₂ g.state_eq.flip hi
    obtain ⟨value, -, hm⟩ := bind_eq_ok.mp hm
    cases hm
    rfl
  · rfl
  · rfl
  · obtain ⟨i, hi⟩ := mem_iff_getElem?.mp hp
    obtain ⟨m, -, hm⟩ := exists_getElem?_of_forall₂ g.providers_eq.flip hi
    obtain ⟨value, -, hm⟩ := bind_eq_ok.mp hm
    cases hm
    rfl

theorem Declared.isComputed_of_mem (g : Declared c) (h : declaration ∈ g.orderedComputed) :
    declaration.isComputed := by
  obtain ⟨i, hi⟩ := mem_iff_getElem?.mp (g.orderedComputed_perm.mem_iff.mp h)
  obtain ⟨m, -, hm⟩ := exists_getElem?_of_forall₂ g.computed_eq.flip hi
  obtain ⟨deps, value, -, -, rfl⟩ := declareComputed_eq_ok hm
  rfl

theorem Declared.not_isComputed_of_mem (g : Declared c) (h : declaration ∈ g.orderedMethods) :
    declaration.isComputed = false := by
  obtain ⟨i, hi⟩ := mem_iff_getElem?.mp (g.orderedMethods_perm.mem_iff.mp h)
  obtain ⟨m, -, hm⟩ := exists_getElem?_of_forall₂ g.methods_eq.flip hi
  obtain ⟨deps, body, -, -, rfl⟩ := declareMethod_eq_ok hm
  rfl

section

variable (g : Declared c) (hnames : (memberNames c).Nodup) (hacyclic : AcyclicMembers c)
include hnames hacyclic

theorem Declared.computed_dependency (hsp : g.orderedComputed = before ++ declaration :: after)
    (hn : name ∈ declaration.dependencies) :
    name ∈ parameterNames c ++ (g.leading ++ before).flatMap Declaration.names ↔
      ¬ (name ∈ c.methods.map Method.name ∧ name ∉ setterNames c) := by
  have ho : ((computedTexts c.computed).map Prod.fst).Nodup := by
    rw [computedTexts, map_map]
    exact (nodup_append.mp (nodup_append.mp hnames).1).2.1
  constructor
  · intro hre hm
    refine hm.2 (g.setter_of_method hnames ?_ hm.1 hre)
    rw [hsp]
    exact subset_append_left _ _
  · intro hm
    by_cases hs : name ∈ setterNames c
    · exact g.mem_of_leading (Or.inl hs)
    · have hno : name ∉ c.methods.map Method.name := fun h => hm ⟨h, hs⟩
      rcases g.memoizes_computed.dependency ho hacyclic hsp hn with h | ⟨hmb, hr⟩
      · exact absurd h hs
      · by_cases hc : name ∈ c.computed.map ComputedField.name
        · rw [computedTexts, map_map] at hr
          rw [flatMap_append]
          exact mem_append_right _ (mem_append_right _ (hr hc))
        · exact g.mem_of_leading (Or.inr ⟨hmb, hc, hno⟩)

theorem Declared.method_dependency (hs : g.orderedMethods = before ++ declaration :: after)
    (hn : name ∈ declaration.dependencies) :
    name ∈ parameterNames c ++ (g.leading ++ g.orderedComputed ++ before).flatMap Declaration.names := by
  have ho : ((methodTexts c.methods).map Prod.fst).Nodup := by
    rw [methodTexts, map_map]
    exact (nodup_append.mp hnames).2.1
  rw [append_assoc]
  rcases g.memoizes_methods.dependency ho hacyclic hs hn with h | ⟨hmb, hr⟩
  · exact g.mem_of_leading (Or.inl h)
  rw [methodTexts, map_map] at hr
  by_cases hm : name ∈ c.methods.map Method.name
  · have hb := hr hm
    simp only [flatMap_append, mem_append]
    exact Or.inr (Or.inr (Or.inr hb))
  · by_cases hc : name ∈ c.computed.map ComputedField.name
    · have hb := g.names_orderedComputed.mem_iff.mpr hc
      simp only [flatMap_append, mem_append]
      exact Or.inr (Or.inr (Or.inl hb))
    · exact g.mem_of_leading (Or.inr ⟨hmb, hc, hm⟩)

end

/-- **Declared before use.** The statements of the function for a component, whose members have distinct names and
whose computed values and methods refer to each other without a cycle, are declarations, an effect and the markup.
A name in the list of dependencies of a declaration is a parameter or is declared in front of it, with one exception:
a computed value depends on a method (and on no setter of the same name), and methods stand behind. -/
theorem dependencies_declared_iff {d : Draft} (hrun : hooks.run c = .ok d) (hnames : (memberNames c).Nodup)
    (hacyclic : AcyclicMembers c) :
    ∃ all, declarations c = .ok all ∧
      statements d = all.map Declaration.text ++ (effect? d).toList ++ [returnStatement d] ∧
      ∀ before declaration after, all = before ++ declaration :: after → ∀ name ∈ declaration.dependencies,
        (name ∈ parameterNames c ++ before.flatMap Declaration.names ↔
          ¬ (declaration.isComputed ∧ name ∈ c.methods.map Method.name ∧ name ∉ setterNames c)) := by
  obtain ⟨all, ha, hs⟩ := statements_of_drafts (drafts_of_run rfl hrun)
  obtain ⟨g, rfl⟩ := exists_declared ha
  refine ⟨_, ha, hs, fun before declaration after hsp name hn => ?_⟩
  rcases split_append hsp with ⟨rest, hf⟩ | ⟨front, rfl, hm⟩
  · rcases split_append hf with ⟨rest, hl⟩ | ⟨front, rfl, hc⟩
    · rw [g.dependencies_leading (hl ▸ mem_append_right _ mem_cons_self)] at hn
      cases hn
    · rw [g.computed_dependency hnames hacyclic hc hn, g.isComputed_of_mem (hc ▸ mem_append_right _ mem_cons_self)]
      simp only [true_and]
  · rw [g.not_isComputed_of_mem (hm ▸ mem_append_right _ mem_cons_self)]
    simp only [Bool.false_eq_true, false_and, not_false_eq_true, iff_true]
    exact g.method_dependency hnames hacyclic hm hn

/-! ### Two counters -/

def namedMembers (kind : SnippetKind) (code : String) : List String :=
  ((Snippet.parse? code kind).map fun snippet => snippet.root.nodes.filterMap thisName?).getD []

theorem RefersTo.exists_named {other : String} (h : RefersTo c name other) :
    ∃ kind code, (name, kind, code) ∈ memoized c ∧ other ∈ (memoized c).map Prod.fst ∧
      other ∈ namedMembers kind code := by
  obtain ⟨kind, code, snippet, place, hm, hp, ho, hn⟩ := h
  refine ⟨kind, code, hm, ho, ?_⟩
  obtain ⟨node, hno, hn⟩ := Option.bind_eq_some_iff.mp hn
  rw [namedMembers, Snippet.parse_eq_ok.mp hp, Option.map_some, Option.getD_some]
  exact mem_filterMap.mpr ⟨node, Node.mem_nodes_iff.mpr ⟨place, hno⟩, hn⟩

/-- There is no cycle if every reference goes to a member of a smaller rank. -/
theorem acyclicMembers_of_rank (rank : String → ℕ)
    (h : ∀ entry ∈ memoized c, ∀ other ∈ namedMembers entry.2.1 entry.2.2,
      other ∈ (memoized c).map Prod.fst → other ≠ entry.1 → rank other < rank entry.1) : AcyclicMembers c := by
  have hs : ∀ name other, RefersTo c name other ∧ other ≠ name → rank name > rank other := by
    rintro name other ⟨hr, hne⟩
    obtain ⟨kind, code, hm, ho, hn⟩ := hr.exists_named
    exact h (name, kind, code) hm other hn ho hne
  intro name hc
  have hl : Relation.TransGen (· > ·) (rank name) (rank name) := Relation.TransGen.lift rank hs name name hc
  rw [Relation.transGen_eq_self] at hl
  exact lt_irrefl _ hl

/-- A counter with values that are computed from each other. -/
def chainedCounter : Component :=
  { emptyComponent "Counter" with
    state := [{ name := "count", initializer := some "1" }]
    computed := [{ name := "label", expression := "this.total + 1" }, { name := "total", expression := "this.count" }]
    methods := [{ name := "reset", body := "this.count = this.label;" }] }

/-- A counter with a value that is computed by a method. -/
def callingCounter : Component :=
  { emptyComponent "Counter" with
    state := [{ name := "count", initializer := some "1" }]
    computed := [{ name := "total", expression := "this.twice(this.count)" }]
    methods := [{ name := "twice", params := "n", body := "return n * 2;" }] }

theorem chainedCounter_acyclic : AcyclicMembers chainedCounter :=
  acyclicMembers_of_rank (fun name => ["total", "label", "reset"].idxOf name) (by decide +kernel)

theorem callingCounter_acyclic : AcyclicMembers callingCounter :=
  acyclicMembers_of_rank (fun name => ["twice", "total"].idxOf name) (by decide +kernel)

theorem dependencies_declared_chained : (memberNames chainedCounter).Nodup ∧ AcyclicMembers chainedCounter ∧
      ∃ d all, hooks.run chainedCounter = .ok d ∧ declarations chainedCounter = .ok all ∧
        ∀ before declaration after, all = before ++ declaration :: after → ∀ name ∈ declaration.dependencies,
          (name ∈ parameterNames chainedCounter ++ before.flatMap Declaration.names ↔
            ¬ (declaration.isComputed ∧ name ∈ ["reset"] ∧ name ∉ ["setCount"])) := by
  obtain ⟨d, hru, -⟩ := exists_of_any (p := fun _ => true)
    (show (hooks.run chainedCounter).toOption.any _ = true by decide +kernel)
  have hnames : (memberNames chainedCounter).Nodup := by decide
  obtain ⟨all, ha, -, hr⟩ := dependencies_declared_iff hru hnames chainedCounter_acyclic
  exact ⟨hnames, chainedCounter_acyclic, d, all, hru, ha, hr⟩

/-- A computed value that calls a method stands in front of it and lists it. -/
theorem computed_precedes_method :
    (memberNames callingCounter).Nodup ∧ AcyclicMembers callingCounter ∧ (hooks.run callingCounter).isOk = true ∧
      ∃ state total twice, declarations callingCounter = .ok [state, total, twice] ∧
        "twice" ∈ total.dependencies ∧ twice.names = ["twice"] ∧
        "twice" ∉ parameterNames callingCounter ++ state.names := by
  refine ⟨by decide, callingCounter_acyclic, by decide +kernel, .state { name := "count", initializer := some "1" } "1",
    .computed { name := "total", expression := "this.twice(this.count)" } ["twice", "count"] "twice(count)",
    .method { name := "twice", params := "n", body := "return n * 2;" } [] "return n * 2;",
    by decide +kernel, by decide, rfl, by decide⟩

end React

end Polyview
