import Mathlib.Data.List.Perm.Basic
import Polyview.Unit.Extraction

/-! # What decorators denote

A decorator denotes a marker by the marker's own name, by a name under which some import of the unit binds the marker, or
as a property of a name under which some import binds the whole marker module. Which statement comes first is of no
account as long as no name is bound to two markers: then the table of a unit says what its statements say
(`ofDecorator?_eq_some_iff`). -/

namespace Polyview

open List Script

/-! ### Imports of markers -/

/-- A part of an import binds a name to a marker. -/
def BindsMarker (part : Node) (name : String) (marker : Marker) : Prop :=
  ∃ typeOnly span parts, part = .mk (.importNamed marker.name typeOnly) span parts ∧
    parts.findSome? Node.bindingName? = some name

/-- A part of an import binds a name to the whole module. -/
def BindsModule (part : Node) (name : String) : Prop :=
  ∃ span parts, part = .mk .importNamespace span parts ∧ ∃ inner ∈ parts, inner.bindingName? = some name

/-- An import from the marker module has a part of the given kind. -/
def ImportsMarkers (binds : Node → Prop) (statement : Node) : Prop :=
  ∃ typeOnly span parts, statement = .mk (.importDeclaration markerModule typeOnly) span parts ∧
    ∃ part ∈ parts, binds part

/-- Some statement imports a marker under a name. -/
def MarkerImported (statements : List Node) (name : String) (marker : Marker) : Prop :=
  ∃ statement ∈ statements, ImportsMarkers (BindsMarker · name marker) statement

/-- Some statement imports the whole marker module under a name. -/
def ModuleImported (statements : List Node) (name : String) : Prop :=
  ∃ statement ∈ statements, ImportsMarkers (BindsModule · name) statement

/-- No name is imported for two markers. -/
def MarkersDistinct (statements : List Node) : Prop :=
  ∀ name marker other, MarkerImported statements name marker → MarkerImported statements name other → marker = other

/-! ### Denotation -/

/-- A name denotes a marker: it is imported for it, or it is the marker's own and imported for no marker. -/
def NameDenotes (statements : List Node) (name : String) (marker : Marker) : Prop :=
  MarkerImported statements name marker ∨ (∀ other, ¬ MarkerImported statements name other) ∧ marker.name = name

/-- An expression that is not called denotes a marker. -/
inductive CalleeDenotes (statements : List Node) : Node → Marker → Prop
  | name {name : String} {marker : Marker} {span : Span} {parts : List Node}
      (h : NameDenotes statements name marker) : CalleeDenotes statements (.mk (.reference name) span parts) marker
  | property {object : String} {marker : Marker} {optional : Bool} {span span' : Span} {parts : List Node}
      (h : ModuleImported statements object) :
      CalleeDenotes statements (.mk (.member marker.name optional) span [.mk (.reference object) span' parts]) marker

/-- An expression denotes a marker, called or not. -/
def ExpressionDenotes (statements : List Node) (expr : Node) (marker : Marker) : Prop :=
  CalleeDenotes statements expr marker ∨
    ∃ optional span callee rest, expr = .mk (.call optional) span (callee :: rest) ∧
      CalleeDenotes statements callee marker

def DecoratorDenotes (statements : List Node) (decorator : Node) (marker : Marker) : Prop :=
  ∃ expr, decorator.part? = some expr ∧ ExpressionDenotes statements expr marker

variable {statements others : List Node} {name : String} {marker : Marker} {part statement node : Node}
  {table : MarkerTable}

/-! ### The table of a unit -/

theorem Marker.ofName?_eq_some_iff : Marker.ofName? name = some marker ↔ marker.name = name := by
  constructor
  · intro h
    simpa using find?_some h
  · rintro rfl
    cases marker <;> decide

/-- What a fold collects: what was there, and what each item adds. -/
theorem foldl_collects {σ α : Type} {step : σ → α → σ} (holds : σ → Prop) {adds : α → Prop}
    (h : ∀ s a, holds (step s a) ↔ holds s ∨ adds a) (items : List α) (s : σ) :
    holds (items.foldl step s) ↔ holds s ∨ ∃ a ∈ items, adds a := by
  induction items generalizing s with
  | nil => simp
  | cons a rest ih => rw [foldl_cons, ih, h, or_assoc, exists_mem_cons_iff]

theorem bindsMarker_named {imported : String} {typeOnly : Bool} {span : Span} {parts : List Node} :
    BindsMarker (.mk (.importNamed imported typeOnly) span parts) name marker ↔
      Marker.ofName? imported = some marker ∧ (parts.filterMap Node.bindingName?).head? = some name := by
  rw [Marker.ofName?_eq_some_iff, head?_filterMap]
  simp [BindsMarker, eq_comm]

theorem mem_aliases_addSpecifier : (name, marker) ∈ (table.addSpecifier part).aliases ↔
    (name, marker) ∈ table.aliases ∨ BindsMarker part name marker := by
  unfold MarkerTable.addSpecifier
  split
  · next imported typeOnly span parts =>
    rw [bindsMarker_named]
    split
    · next found bound rest hf hb =>
      rw [hf, hb, mem_cons, or_comm]
      simp [eq_comm, and_comm]
    · next hn =>
      refine (or_iff_left ?_).symm
      rintro ⟨hm, hnm⟩
      obtain ⟨rest, hr⟩ := head?_eq_some_iff.mp hnm
      exact hn _ _ _ hm hr
  · next span parts => simp [BindsMarker]
  · next hna _ =>
    refine (or_iff_left ?_).symm
    rintro ⟨typeOnly, span, parts, rfl, -⟩
    exact hna _ _ _ _ rfl

theorem mem_modules_addSpecifier : name ∈ (table.addSpecifier part).modules ↔
    name ∈ table.modules ∨ BindsModule part name := by
  unfold MarkerTable.addSpecifier
  split
  · split <;> simp [BindsModule]
  · next span parts => simp [BindsModule, or_comm]
  · next hm =>
    refine (or_iff_left ?_).symm
    rintro ⟨span, parts, rfl, -⟩
    exact hm _ _ rfl

/-- What a statement adds to a table, for one kind of entry. -/
theorem addStatement_collects (holds : MarkerTable → Prop) {binds : Node → Prop}
    (h : ∀ table part, holds (table.addSpecifier part) ↔ holds table ∨ binds part) (table : MarkerTable)
    (statement : Node) : holds (table.addStatement statement) ↔ holds table ∨ ImportsMarkers binds statement := by
  unfold MarkerTable.addStatement
  split
  · next source typeOnly span parts =>
    split
    · next hs =>
      obtain rfl : source = markerModule := by simpa using hs
      rw [foldl_collects holds h]
      simp [ImportsMarkers]
    · next hs =>
      refine (or_iff_left ?_).symm
      rintro ⟨_, _, _, heq, -⟩
      cases heq
      simp at hs
  · next hi =>
    refine (or_iff_left ?_).symm
    rintro ⟨_, _, _, rfl, -⟩
    exact hi _ _ _ _ rfl

theorem ofStatements_collects (holds : MarkerTable → Prop) {binds : Node → Prop} (he : ¬ holds {})
    (h : ∀ table part, holds (table.addSpecifier part) ↔ holds table ∨ binds part) (statements : List Node) :
    holds (MarkerTable.ofStatements statements) ↔ ∃ statement ∈ statements, ImportsMarkers binds statement := by
  rw [MarkerTable.ofStatements, foldl_collects holds (addStatement_collects holds h), or_iff_right he]

theorem mem_aliases_iff :
    (name, marker) ∈ (MarkerTable.ofStatements statements).aliases ↔ MarkerImported statements name marker :=
  ofStatements_collects (fun table => (name, marker) ∈ table.aliases) not_mem_nil
    (fun _ _ => mem_aliases_addSpecifier) statements

/-- The modules of a unit are the imports of the whole marker module. -/
theorem mem_modules_iff : name ∈ (MarkerTable.ofStatements statements).modules ↔ ModuleImported statements name :=
  ofStatements_collects (fun table => name ∈ table.modules) not_mem_nil
    (fun _ _ => mem_modules_addSpecifier) statements

theorem lookup_aliases_eq_none_iff : (MarkerTable.ofStatements statements).aliases.lookup name = none ↔
      ∀ marker, ¬ MarkerImported statements name marker := by
  rw [lookup_eq_none_iff]
  simp only [← mem_aliases_iff]
  constructor
  · intro h marker hm
    simpa using h _ hm
  · rintro h ⟨other, marker⟩ hm
    simp only [bne_iff_ne]
    rintro rfl
    exact h marker hm

theorem lookup_aliases_eq_some_iff (h : MarkersDistinct statements) :
    (MarkerTable.ofStatements statements).aliases.lookup name = some marker ↔
      MarkerImported statements name marker := by
  have hs {found : Marker} (hf : (MarkerTable.ofStatements statements).aliases.lookup name = some found) :
      MarkerImported statements name found := by
    obtain ⟨before, after, heq, -⟩ := lookup_eq_some_iff.mp hf
    exact mem_aliases_iff.mp (heq ▸ mem_append_right _ (.head _))
  refine ⟨hs, fun hi => ?_⟩
  cases hf : (MarkerTable.ofStatements statements).aliases.lookup name with
  | none => exact absurd hi (lookup_aliases_eq_none_iff.mp hf marker)
  | some found => rw [h name found marker (hs hf) hi]

theorem ofName?_eq_some_iff (h : MarkersDistinct statements) :
    (MarkerTable.ofStatements statements).ofName? name = some marker ↔ NameDenotes statements name marker := by
  unfold MarkerTable.ofName? NameDenotes
  cases hf : (MarkerTable.ofStatements statements).aliases.lookup name with
  | none =>
    have hn := lookup_aliases_eq_none_iff.mp hf
    change Marker.ofName? name = some marker ↔ _
    rw [Marker.ofName?_eq_some_iff]
    simp [hn]
  | some found =>
    have hi := (lookup_aliases_eq_some_iff h).mp hf
    change some found = some marker ↔ _
    rw [← hf, lookup_aliases_eq_some_iff h]
    refine (or_iff_left ?_).symm
    exact fun hn => hn.1 found hi

theorem ofCallee?_eq_some_iff (h : MarkersDistinct statements) :
    (MarkerTable.ofStatements statements).ofCallee? node = some marker ↔ CalleeDenotes statements node marker := by
  unfold MarkerTable.ofCallee?
  split
  · next name span parts =>
    rw [ofName?_eq_some_iff h]
    refine ⟨.name, fun hd => ?_⟩
    cases hd with
    | name hn => exact hn
  · next name optional span object span' parts =>
    have hi : (if (MarkerTable.ofStatements statements).modules.contains object then Marker.ofName? name else none) =
        some marker ↔ ModuleImported statements object ∧ marker.name = name := by
      rw [← mem_modules_iff, ← Marker.ofName?_eq_some_iff, ← contains_iff_mem]
      simp
    rw [hi]
    constructor
    · rintro ⟨hm, rfl⟩
      exact .property hm
    · intro hd
      cases hd with
      | property hm => exact ⟨hm, rfl⟩
  · next hn hp =>
    refine ⟨fun hno => (nomatch hno), fun hd => ?_⟩
    cases hd with
    | name hd => exact absurd rfl (hn _ _ _)
    | property hm => exact absurd rfl (hp _ _ _ _ _ _)

/-- **The table of a unit says what its statements say**, if no name is bound to two markers. -/
theorem ofDecorator?_eq_some_iff (h : MarkersDistinct statements) {decorator : Node} :
    (MarkerTable.ofStatements statements).ofDecorator? decorator = some marker ↔
      DecoratorDenotes statements decorator marker := by
  rw [MarkerTable.ofDecorator?, Option.bind_eq_some_iff]
  refine exists_congr fun expr => and_congr_right fun _ => ?_
  unfold MarkerTable.ofExpression? ExpressionDenotes
  split
  · next optional span callee rest =>
    rw [ofCallee?_eq_some_iff h]
    constructor
    · exact fun hd => .inr ⟨_, _, _, _, rfl, hd⟩
    · rintro (hd | ⟨_, _, _, _, heq, hd⟩)
      · cases hd
      · cases heq
        exact hd
  · next hc =>
    rw [ofCallee?_eq_some_iff h]
    refine (or_iff_left ?_).symm
    rintro ⟨_, _, _, _, rfl, -⟩
    exact hc _ _ _ _ rfl

/-! ### The order of statements -/

theorem markerImported_perm (hp : others.Perm statements) : MarkerImported others = MarkerImported statements := by
  funext name marker
  simp [MarkerImported, hp.mem_iff]

theorem moduleImported_perm (hp : others.Perm statements) : ModuleImported others = ModuleImported statements := by
  funext name
  simp [ModuleImported, hp.mem_iff]

theorem MarkersDistinct.perm (h : MarkersDistinct statements) (hp : others.Perm statements) :
    MarkersDistinct others := by
  rw [MarkersDistinct, markerImported_perm hp]
  exact h

theorem CalleeDenotes.perm (h : CalleeDenotes statements node marker) (hp : others.Perm statements) :
    CalleeDenotes others node marker := by
  cases h with
  | name hn =>
    refine .name ?_
    rwa [NameDenotes, markerImported_perm hp]
  | property hm =>
    refine .property ?_
    rwa [moduleImported_perm hp]

/-- What decorators denote does not depend on the order of statements. -/
theorem DecoratorDenotes.perm (h : DecoratorDenotes statements node marker) (hp : others.Perm statements) :
    DecoratorDenotes others node marker := by
  obtain ⟨expr, he, hd | ⟨optional, span, callee, rest, heq, hd⟩⟩ := h
  · exact ⟨expr, he, .inl (hd.perm hp)⟩
  · exact ⟨expr, he, .inr ⟨optional, span, callee, rest, heq, hd.perm hp⟩⟩

end Polyview
