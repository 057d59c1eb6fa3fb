import Polyview.Backend.React
import Polyview.Proofs.Member.References
import Polyview.Proofs.Member.Update
import Polyview.Proofs.Order.Cycle
import Polyview.Proofs.Pipeline.Outcome

/-! # What the function of a component declares

The function for a component is a list of declarations, an effect and the markup that it returns. `Declaration` has
the declarations as data: the member, the dependencies in the list at the end, and the adapted code. `declarations`
computes them from the component, role by role, with computed values and methods in their orders.

The statements of the function are the texts of these declarations, with the effect and the markup behind them
(`statements_of_drafts`). -/

namespace Polyview.React

open List Script Text

variable {α β : Type} {as : List α} {bs : List β} {m : Method}

/-- A declaration in the function of a component, with the adapted code that it holds. -/
inductive Declaration
  | state (m : StateField) (value : String)
  | ref (m : RefField)
  | inject (m : InjectField)
  | provider (m : ProviderField) (value : String)
  | computed (m : ComputedField) (deps : List String) (value : String)
  | method (m : Method) (deps : List String) (body : String)
deriving DecidableEq, Repr

namespace Declaration

/-- The names that are declared: the member, and beside a state variable its setter. -/
def names : Declaration → List String
  | .state m _ => [m.name, setterName m.name]
  | .ref m => [m.name]
  | .inject m => [m.name]
  | .provider m _ => [m.name]
  | .computed m _ _ => [m.name]
  | .method m _ _ => [m.name]

def dependencies : Declaration → List String
  | .computed _ deps _ => deps
  | .method _ deps _ => deps
  | _ => []

/-- Whether a computed value is declared. -/
def isComputed : Declaration → Bool
  | .computed .. => true
  | _ => false

def text : Declaration → String
  | .state m value => withComments m.comments ("const [" ++ m.name ++ ", " ++ setterName m.name ++ "] = useState" ++
      typeArgument m.typeText ++ "(" ++ value ++ ");")
  | .ref m => withComments m.comments ("const " ++ m.name ++ " = useRef" ++ nullableArgument m.typeText ++ "(null);")
  | .inject m => withComments m.comments ("const " ++ m.name ++ " = useContext(" ++ contextName m.token ++ ")!;")
  | .provider m value => withComments m.comments ("const " ++ m.name ++ " = useMemo" ++ typeArgument m.typeText ++
      "(() => " ++ value ++ ", []);")
  | .computed m deps value => withComments m.comments ("const " ++ m.name ++ " = useMemo" ++
      typeArgument m.returnType ++ "(() => " ++ value ++ ", [" ++ join ", " deps ++ "]);")
  | .method m deps body => withComments m.comments ("const " ++ m.name ++ " = useCallback(" ++ asyncMark m.isAsync ++
      "(" ++ m.params ++ ")" ++ typed m.returnType ++ " => " ++ codeBlock body ++ ", [" ++ join ", " deps ++ "]);")

end Declaration

/-! ### From members to declarations -/

/-- The dependencies of a memoized member by name, without the member itself. -/
def dependencyNames (c : Component) (own : String) (kind : SnippetKind) (code : String) :
    Except Error (List String) := do
  let deps ← inferDependencies code kind (reactiveScope c)
  return deps.filter fun name => name != own

/-- The adapted initial value of a state variable. -/
def initialValue (c : Component) : Option String → Except Error String
  | some code => adapt c .expression code
  | none => .ok ""

/-- The declaration of a state variable. -/
def declareState (c : Component) (m : StateField) : Except Error Declaration := do
  return .state m (← initialValue c m.initializer)

/-- The declaration of a provided value. -/
def declareProvider (c : Component) (m : ProviderField) : Except Error Declaration := do
  return .provider m (← adapt c .expression m.initializer)

/-- The declaration of a computed value. -/
def declareComputed (c : Component) (m : ComputedField) : Except Error Declaration := do
  let deps ← dependencyNames c m.name .expression m.expression
  return .computed m deps (← adapt c .expression m.expression)

def declareMethod (c : Component) (m : Method) : Except Error Declaration := do
  let deps ← dependencyNames c m.name .statements m.body
  return .method m deps (← adapt c .statements m.body)

/-- The declarations of the function of a component. -/
def declarations (c : Component) : Except Error (List Declaration) := do
  let state ← c.state.mapM (declareState c)
  let providers ← c.providers.mapM (declareProvider c)
  let computed ← c.computed.mapM (declareComputed c)
  let methods ← c.methods.mapM (declareMethod c)
  let computedOrder ← orderComputed c.computed
  let methodOrder ← orderMethods c.methods
  return state ++ c.refs.map .ref ++ c.injects.map .inject ++ providers ++
    computedOrder.filterMap (fun i => computed[i]?) ++ methodOrder.filterMap (fun i => methods[i]?)

/-- The names of all members, role by role. -/
def memberNames (c : Component) : List String :=
  c.props.map PropField.name ++ c.events.map EventField.name ++ c.state.map StateField.name ++
    c.refs.map RefField.name ++ c.injects.map InjectField.name ++ c.providers.map ProviderField.name ++
    c.computed.map ComputedField.name ++ c.methods.map Method.name

/-- The names of the setters of state variables. -/
def setterNames (c : Component) : List String := c.state.map fun m => setterName m.name

/-- The names of the parameters that are not slots. -/
def parameterNames (c : Component) : List String := c.props.map PropField.name ++ c.events.map EventField.name

/-- The statement that returns the markup. -/
def returnStatement (d : Draft) : String := "return (\n  " ++ d.template.codeOnly ++ "\n);"

/-! ### Hooks -/

section

variable {c : Component} {d : Draft}

theorem dependencyNames_of_dependencyList {own code text : String} {kind : SnippetKind}
    (h : dependencyList c own kind code = .ok text) :
    ∃ deps, dependencyNames c own kind code = .ok deps ∧ text = join ", " deps := by
  unfold dependencyList at h
  unfold dependencyNames
  cases hd : inferDependencies code kind (reactiveScope c) with
  | error error =>
    rw [hd] at h
    cases h
  | ok deps =>
    rw [hd] at h
    cases h
    exact ⟨_, rfl, rfl⟩

/-- What is written for a member is the text of its declaration. -/
def Writes {α : Type} [HasSource α] (declare : α → Except Error Declaration) (m : α) (emitted : Emitted α) : Prop :=
  ∃ declaration, declare m = .ok declaration ∧ emitted.code = declaration.text

theorem writes_state {m : StateField} {emitted : Emitted StateField} (h : Turns (some stateHook) c m emitted) :
    Writes (declareState c) m emitted := by
  obtain ⟨artifact, ⟨w, w', hr⟩, rfl⟩ := exists_artifact_of_turns h
  unfold stateHook at hr
  obtain ⟨_, w₁, -, hr⟩ := run_bind_eq_ok hr
  unfold Writes declareState
  cases hi : m.initializer with
  | none =>
    rw [hi] at hr
    cases hr
    exact ⟨_, rfl, rfl⟩
  | some code =>
    rw [hi] at hr
    obtain ⟨value, w₂, hv, hr⟩ := run_bind_eq_ok hr
    cases hr
    rw [initialValue, run_lift_eq_ok hv]
    exact ⟨_, rfl, rfl⟩

theorem writes_provider {m : ProviderField} {emitted : Emitted ProviderField}
    (h : Turns (some providerHook) c m emitted) : Writes (declareProvider c) m emitted := by
  obtain ⟨artifact, ⟨w, w', hr⟩, rfl⟩ := exists_artifact_of_turns h
  unfold providerHook at hr
  obtain ⟨_, _, -, hr⟩ := run_bind_eq_ok hr
  obtain ⟨_, _, -, hr⟩ := run_bind_eq_ok hr
  obtain ⟨_, _, -, hr⟩ := run_bind_eq_ok hr
  obtain ⟨value, _, hv, hr⟩ := run_bind_eq_ok hr
  cases hr
  unfold Writes declareProvider
  rw [run_lift_eq_ok hv]
  exact ⟨_, rfl, rfl⟩

theorem writes_computed {m : ComputedField} {emitted : Emitted ComputedField}
    (h : Turns (some computedHook) c m emitted) : Writes (declareComputed c) m emitted := by
  obtain ⟨artifact, ⟨w, w', hr⟩, rfl⟩ := exists_artifact_of_turns h
  unfold computedHook at hr
  obtain ⟨_, _, -, hr⟩ := run_bind_eq_ok hr
  obtain ⟨_, _, hl, hr⟩ := run_bind_eq_ok hr
  obtain ⟨value, _, hv, hr⟩ := run_bind_eq_ok hr
  cases hr
  obtain ⟨deps, hd, rfl⟩ := dependencyNames_of_dependencyList (run_lift_eq_ok hl)
  unfold Writes declareComputed
  rw [hd, run_lift_eq_ok hv]
  exact ⟨_, rfl, rfl⟩

theorem writes_method {emitted : Emitted Method} (h : Turns (some methodHook) c m emitted) :
    Writes (declareMethod c) m emitted := by
  obtain ⟨artifact, ⟨w, w', hr⟩, rfl⟩ := exists_artifact_of_turns h
  unfold methodHook at hr
  obtain ⟨_, _, -, hr⟩ := run_bind_eq_ok hr
  obtain ⟨_, _, hl, hr⟩ := run_bind_eq_ok hr
  obtain ⟨body, _, hb, hr⟩ := run_bind_eq_ok hr
  cases hr
  obtain ⟨deps, hd, rfl⟩ := dependencyNames_of_dependencyList (run_lift_eq_ok hl)
  unfold Writes declareMethod
  rw [hd, run_lift_eq_ok hb]
  exact ⟨_, rfl, rfl⟩

theorem code_of_turns_ref {m : RefField} {emitted : Emitted RefField} (h : Turns (some refHook) c m emitted) :
    emitted.code = (Declaration.ref m).text := by
  obtain ⟨artifact, ⟨w, w', hr⟩, rfl⟩ := exists_artifact_of_turns h
  unfold refHook at hr
  obtain ⟨_, _, -, hr⟩ := run_bind_eq_ok hr
  cases hr
  rfl

theorem code_of_turns_inject {m : InjectField} {emitted : Emitted InjectField}
    (h : Turns (some injectHook) c m emitted) : emitted.code = (Declaration.inject m).text := by
  obtain ⟨artifact, ⟨w, w', hr⟩, rfl⟩ := exists_artifact_of_turns h
  unfold injectHook at hr
  obtain ⟨_, _, -, hr⟩ := run_bind_eq_ok hr
  obtain ⟨_, _, -, hr⟩ := run_bind_eq_ok hr
  cases hr
  rfl

/-! ### Statements -/

theorem exists_mapM_of_writes [HasSource α] {declare : α → Except Error Declaration} {members : List α}
    {emitted : List (Emitted α)} (h : List.Forall₂ (Writes declare) members emitted) :
    ∃ all, members.mapM declare = .ok all ∧ emitted.map Emitted.code = all.map Declaration.text := by
  induction h with
  | nil => exact ⟨[], rfl, rfl⟩
  | cons hf _ ih =>
    obtain ⟨declaration, hd, hco⟩ := hf
    obtain ⟨others, ho, hc⟩ := ih
    refine ⟨declaration :: others, ?_, ?_⟩
    · rw [mapM_cons, hd, ho]
      rfl
    · rw [map_cons, map_cons, hco, hc]

theorem map_eq_of_forall₂ {γ : Type} {f : α → γ} {g : β → γ} (h : List.Forall₂ (fun a b => g b = f a) as bs) :
    bs.map g = as.map f := by
  induction h with
  | nil => rfl
  | cons hf _ ih => rw [map_cons, map_cons, hf, ih]

theorem exists_getElem?_of_forall₂ {R : α → β → Prop} (h : List.Forall₂ R as bs) {i : ℕ} {a : α}
    (ha : as[i]? = some a) : ∃ b, bs[i]? = some b ∧ R a b := by
  induction h generalizing i with
  | nil => cases ha
  | cons hf _ ih =>
    cases i with
    | zero =>
      cases ha
      exact ⟨_, rfl, hf⟩
    | succ i => exact ih ha

/-- Items that are picked by index are related if the lists are. -/
theorem map_pick {γ : Type} {f : α → γ} {g : β → γ} (h : as.map f = bs.map g) (order : List ℕ) :
    (order.filterMap fun i => as[i]?).map f = (order.filterMap fun i => bs[i]?).map g := by
  rw [map_filterMap, map_filterMap]
  congr 1
  funext i
  rw [← getElem?_map, ← getElem?_map, h]

/-- **The statements of the function** are the texts of the declarations, the effect and the markup. -/
theorem statements_of_drafts (h : Drafts hooks c d) : ∃ all, declarations c = .ok all ∧
      statements d = all.map Declaration.text ++ (effect? d).toList ++ [returnStatement d] := by
  obtain ⟨state, hst, hs⟩ := exists_mapM_of_writes (h.state.imp fun _ _ => writes_state)
  obtain ⟨providers, hpr, hp⟩ := exists_mapM_of_writes (h.providers.imp fun _ _ => writes_provider)
  obtain ⟨computed, hc, hv⟩ := exists_mapM_of_writes (h.computed.imp fun _ _ => writes_computed)
  obtain ⟨methods, hm, hb⟩ := exists_mapM_of_writes (h.methods.imp fun _ _ => writes_method)
  have hr := map_eq_of_forall₂ (h.refs.imp fun _ _ => code_of_turns_ref)
  have hi := map_eq_of_forall₂ (h.injects.imp fun _ _ => code_of_turns_inject)
  refine ⟨state ++ c.refs.map .ref ++ c.injects.map .inject ++ providers ++
    d.computedOrder.filterMap (fun i => computed[i]?) ++ d.methodOrder.filterMap (fun i => methods[i]?), ?_, ?_⟩
  · unfold declarations
    rw [hst, hpr, hc, hm, h.computedOrder, h.methodOrder]
    rfl
  · unfold statements Draft.orderedComputed Draft.orderedMethods returnStatement
    rw [map_pick hv, map_pick hb, hs, hp, hr, hi]
    simp only [map_append, map_map, Function.comp_def]

end

/-! ### Declarations by role -/

/-- The declarations of a component by role. Each is what its member declares, and computed values and methods come
with their orders. -/
structure Declared (c : Component) where
  state : List Declaration
  providers : List Declaration
  computed : List Declaration
  methods : List Declaration
  computedOrder : List ℕ
  methodOrder : List ℕ
  state_eq : List.Forall₂ (fun m declaration => declareState c m = .ok declaration) c.state state
  providers_eq : List.Forall₂ (fun m declaration => declareProvider c m = .ok declaration) c.providers providers
  computed_eq : List.Forall₂ (fun m declaration => declareComputed c m = .ok declaration) c.computed computed
  methods_eq : List.Forall₂ (fun m declaration => declareMethod c m = .ok declaration) c.methods methods
  computedOrder_eq : orderComputed c.computed = .ok computedOrder
  methodOrder_eq : orderMethods c.methods = .ok methodOrder

namespace Declared

variable {c : Component} (g : Declared c)

/-- What is declared in front of computed values and methods. -/
def leading : List Declaration := g.state ++ c.refs.map .ref ++ c.injects.map .inject ++ g.providers

/-- The computed values in their order. -/
def orderedComputed : List Declaration := g.computedOrder.filterMap fun i => g.computed[i]?

/-- The methods in their order. -/
def orderedMethods : List Declaration := g.methodOrder.filterMap fun i => g.methods[i]?

def all : List Declaration := g.leading ++ g.orderedComputed ++ g.orderedMethods

end Declared

theorem forall₂_of_mapM_eq_ok {f : α → Except Error β} {items : List α} {values : List β}
    (h : items.mapM f = .ok values) : List.Forall₂ (fun item value => f item = .ok value) items values := by
  induction items generalizing values with
  | nil =>
    cases h
    exact .nil
  | cons item rest ih =>
    rw [mapM_cons] at h
    obtain ⟨first, hf, h⟩ := bind_eq_ok.mp h
    obtain ⟨others, ho, h⟩ := bind_eq_ok.mp h
    cases h
    exact .cons hf (ih ho)

theorem exists_declared {c : Component} {all : List Declaration} (h : declarations c = .ok all) :
    ∃ g : Declared c, g.all = all := by
  unfold declarations at h
  obtain ⟨state, hs, h⟩ := bind_eq_ok.mp h
  obtain ⟨providers, hp, h⟩ := bind_eq_ok.mp h
  obtain ⟨computed, hc, h⟩ := bind_eq_ok.mp h
  obtain ⟨methods, hm, h⟩ := bind_eq_ok.mp h
  obtain ⟨computedOrder, hco, h⟩ := bind_eq_ok.mp h
  obtain ⟨methodOrder, hmo, h⟩ := bind_eq_ok.mp h
  cases h
  exact ⟨{
    state, providers, computed, methods, computedOrder, methodOrder
    state_eq := forall₂_of_mapM_eq_ok hs
    providers_eq := forall₂_of_mapM_eq_ok hp
    computed_eq := forall₂_of_mapM_eq_ok hc
    methods_eq := forall₂_of_mapM_eq_ok hm
    computedOrder_eq := hco
    methodOrder_eq := hmo }, rfl⟩

/-! ### Declared names -/

section

variable {c : Component} {declaration : Declaration}

theorem names_of_declareState {m : StateField} (h : declareState c m = .ok declaration) :
    declaration.names = [m.name, setterName m.name] := by
  obtain ⟨value, -, h⟩ := bind_eq_ok.mp h
  cases h
  rfl

theorem names_of_declareProvider {m : ProviderField} (h : declareProvider c m = .ok declaration) :
    declaration.names = [m.name] := by
  obtain ⟨value, -, h⟩ := bind_eq_ok.mp h
  cases h
  rfl

theorem declareComputed_eq_ok {m : ComputedField} (h : declareComputed c m = .ok declaration) :
    ∃ deps value, dependencyNames c m.name .expression m.expression = .ok deps ∧
      adapt c .expression m.expression = .ok value ∧ declaration = .computed m deps value := by
  obtain ⟨deps, hd, h⟩ := bind_eq_ok.mp h
  obtain ⟨value, hv, h⟩ := bind_eq_ok.mp h
  cases h
  exact ⟨deps, value, hd, hv, rfl⟩

theorem declareMethod_eq_ok (h : declareMethod c m = .ok declaration) :
    ∃ deps body, dependencyNames c m.name .statements m.body = .ok deps ∧
      adapt c .statements m.body = .ok body ∧ declaration = .method m deps body := by
  obtain ⟨deps, hd, h⟩ := bind_eq_ok.mp h
  obtain ⟨body, hb, h⟩ := bind_eq_ok.mp h
  cases h
  exact ⟨deps, body, hd, hb, rfl⟩

theorem names_of_declareComputed {m : ComputedField} (h : declareComputed c m = .ok declaration) :
    declaration.names = [m.name] := by
  obtain ⟨deps, value, -, -, rfl⟩ := declareComputed_eq_ok h
  rfl

theorem names_of_declareMethod (h : declareMethod c m = .ok declaration) : declaration.names = [m.name] := by
  obtain ⟨deps, body, -, -, rfl⟩ := declareMethod_eq_ok h
  rfl

end

/-- Items that are picked in the order of a permutation of their indices are a permutation of the items. -/
theorem pick_perm {items : List α} {order : List ℕ} (h : order.Perm (List.range items.length)) :
    (order.filterMap fun i => items[i]?).Perm items := by
  have hm : (List.range items.length).map (fun i => items[i]?) = items.map some := by
    refine ext_getElem (by simp) fun i hi _ => ?_
    rw [length_map, length_range] at hi
    simp [hi]
  have ha : (List.range items.length).filterMap (fun i => items[i]?) = items := by
    have h := congrArg (List.filterMap id) hm
    rwa [filterMap_map, filterMap_map, Function.id_comp, Function.id_comp, filterMap_some] at h
  have hp := h.filterMap fun i => items[i]?
  rwa [ha] at hp

theorem orderByReferences_perm {kind : SnippetKind} {items : List (String × String)} {order : List ℕ}
    (h : orderByReferences kind items = .ok order) : order.Perm (List.range items.length) := by
  obtain ⟨deps, hd, h⟩ := bind_eq_ok.mp h
  cases h
  rw [(forall₂_of_mapM_eq_ok hd).length_eq]
  exact Order.stableOrder_perm deps

namespace Declared

variable {c : Component} (g : Declared c)

theorem orderedComputed_perm : g.orderedComputed.Perm g.computed := by
  have hp := orderByReferences_perm g.computedOrder_eq
  rw [length_map, g.computed_eq.length_eq] at hp
  exact pick_perm hp

theorem orderedMethods_perm : g.orderedMethods.Perm g.methods := by
  have hp := orderByReferences_perm g.methodOrder_eq
  rw [length_map, g.methods_eq.length_eq] at hp
  exact pick_perm hp

/-- The names that are declared in front of computed values and methods. -/
theorem names_leading : g.leading.flatMap Declaration.names = c.state.flatMap (fun m => [m.name, setterName m.name]) ++
      c.refs.map RefField.name ++ c.injects.map InjectField.name ++ c.providers.map ProviderField.name := by
  have hs := map_eq_of_forall₂ (g.state_eq.imp fun _ _ => names_of_declareState)
  have hp := map_eq_of_forall₂ (g.providers_eq.imp fun _ _ => names_of_declareProvider)
  unfold leading
  simp only [flatMap_def, map_append, flatten_append, hs, hp, map_map]
  simp only [← flatMap_def, Function.comp_def, Declaration.names]
  rw [map_eq_flatMap, map_eq_flatMap, map_eq_flatMap]

theorem names_orderedComputed :
    (g.orderedComputed.flatMap Declaration.names).Perm (c.computed.map ComputedField.name) := by
  have hn := map_eq_of_forall₂ (g.computed_eq.imp fun _ _ => names_of_declareComputed)
  rw [map_eq_flatMap, flatMap_def (l := c.computed), ← hn, ← flatMap_def]
  exact g.orderedComputed_perm.flatMap_right _

theorem names_orderedMethods : (g.orderedMethods.flatMap Declaration.names).Perm (c.methods.map Method.name) := by
  have hn := map_eq_of_forall₂ (g.methods_eq.imp fun _ _ => names_of_declareMethod)
  rw [map_eq_flatMap, flatMap_def (l := c.methods), ← hn, ← flatMap_def]
  exact g.orderedMethods_perm.flatMap_right _

end Declared

end Polyview.React
