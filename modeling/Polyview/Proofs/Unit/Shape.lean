import Mathlib.Data.List.Induction
import Polyview.Proofs.Member.Update
import Polyview.Proofs.Unit.Denotation
import Polyview.Proofs.Unit.MemberOrder

/-! # The shape of a unit

A unit declares one class with a class marker, and imports and types beside it. The verdict on its shape is told by its
statements as a whole: whether some class is marked, whether both kinds of classes occur, whether several classes are
marked, whether something else stands beside them, and whether the class has a name, in this order (`Verdict`).
Extraction stops with the code of the verdict, and otherwise goes on with the imports and types in their order
(`unit_shape_verdict`). -/

namespace Polyview

open List Script Node

/-! ### Verdicts -/

/-- A statement declares an interface or a type alias, which may be exported by name. -/
inductive DeclaresType : Node → Prop
  | plain {shape : Shape} {span : Span} {parts : List Node} (h : shape = .interfaceDeclaration ∨ shape = .typeAlias) :
      DeclaresType (.mk shape span parts)
  | exported {shape : Shape} {typeOnly : Bool} {span span' : Span} {parts : List Node}
      (h : shape = .interfaceDeclaration ∨ shape = .typeAlias) :
      DeclaresType (.mk (.exportNamed typeOnly) span [.mk shape span' parts])

/-- A statement declares a class, which may be exported by name or as the default. -/
inductive DeclaresClass : Node → Node → Prop
  | plain {modifiers : Modifiers} {span : Span} {parts : List Node} :
      DeclaresClass (.mk (.classNode true modifiers) span parts) (.mk (.classNode true modifiers) span parts)
  | exported {typeOnly isDeclaration : Bool} {modifiers : Modifiers} {span span' : Span} {parts : List Node} :
      DeclaresClass (.mk (.exportNamed typeOnly) span [.mk (.classNode isDeclaration modifiers) span' parts])
        (.mk (.classNode isDeclaration modifiers) span' parts)
  | exportedDefault {modifiers : Modifiers} {span span' : Span} {parts : List Node} :
      DeclaresClass (.mk .exportDefault span [.mk (.classNode true modifiers) span' parts])
        (.mk (.classNode true modifiers) span' parts)

/-- A statement that may stand beside the marked class: an import, an interface or type alias, or nothing at all. -/
def IsBeside (statement : Node) : Prop :=
  (∃ source typeOnly, statement.shape = .importDeclaration source typeOnly) ∨ statement.shape = .emptyStatement ∨
    DeclaresType statement

/-- A class has a decorator that denotes a class marker. -/
def Carries (statements : List Node) (node : Node) (kind : Marker) : Prop :=
  kind.isClassMarker = true ∧
    ∃ decorator ∈ node.parts, decorator.shape = .decorator ∧ DecoratorDenotes statements decorator kind

/-- A class is of the kind that the first of its decorators with a class marker denotes. -/
def HasKind (statements : List Node) (node : Node) (kind : Marker) : Prop :=
  ∃ before decorator after, node.parts.filter isDecorator = before ++ decorator :: after ∧
    DecoratorDenotes statements decorator kind ∧ kind.isClassMarker = true ∧
    ∀ other ∈ before, ∀ marker, DecoratorDenotes statements other marker → marker.isClassMarker = false

/-- A statement of a unit declares a class with a marker. -/
def DeclaresCarrying (statements : List Node) (statement node : Node) (kind : Marker) : Prop :=
  DeclaresClass statement node ∧ Carries statements node kind

/-- A statement of a unit declares a class of some kind. -/
def Declares (statements : List Node) (statement node : Node) (kind : Marker) : Prop :=
  DeclaresClass statement node ∧ HasKind statements node kind

/-- No class carries both class markers. -/
def Unmixed (statements : List Node) : Prop :=
  ∀ statement ∈ statements, ∀ node, DeclaresClass statement node →
    ¬ (Carries statements node .component ∧ Carries statements node .provider)

section

variable (declares : Node → Node → Marker → Prop) (statements : List Node)

/-- A statement declares a marked class. -/
def IsMarked (statement : Node) : Prop := ∃ node kind, declares statement node kind

/-- Some class is marked. -/
def Marked : Prop := ∃ statement ∈ statements, IsMarked declares statement

/-- Both kinds of marked classes occur. -/
def Mixed : Prop :=
  (∃ statement ∈ statements, ∃ node, declares statement node .component) ∧
    ∃ statement ∈ statements, ∃ node, declares statement node .provider

/-- More than one class is marked. -/
def Several : Prop :=
  ∃ first second, [first, second].Subperm statements ∧ IsMarked declares first ∧ IsMarked declares second

/-- Something that does not belong into a unit stands beside the marked classes. -/
def Crowded : Prop := ∃ statement ∈ statements, ¬ IsMarked declares statement ∧ ¬ IsBeside statement

end

def className? (node : Node) : Option String := node.parts.findSome? bindingName?

/-- What comes of a unit, as far as its shape tells. -/
inductive Outcome
  | stops (code : Code)
  | goesOn (node : Node) (kind : Marker) (name : String)

/-- The verdict on the shape of a unit: the first of five faults, or else the only class with its name. Which classes a
statement declares, and of which kinds they are, is given. -/
inductive Verdict (declares : Node → Node → Marker → Prop) (statements : List Node) : Outcome → Prop
  | unmarked : ¬ Marked declares statements → Verdict declares statements (.stops .noComponent)
  | mixed : Marked declares statements → Mixed declares statements → Verdict declares statements (.stops .mixedUnit)
  | several : Marked declares statements → ¬ Mixed declares statements → Several declares statements →
      Verdict declares statements (.stops .multipleComponents)
  | crowded : Marked declares statements → ¬ Mixed declares statements → ¬ Several declares statements →
      Crowded declares statements → Verdict declares statements (.stops .extraneousStatement)
  | anonymous {statement node : Node} {kind : Marker} : Marked declares statements → ¬ Mixed declares statements →
      ¬ Several declares statements → ¬ Crowded declares statements → statement ∈ statements →
      declares statement node kind → className? node = none → Verdict declares statements (.stops .anonymousClass)
  | named {statement node : Node} {kind : Marker} {name : String} : Marked declares statements →
      ¬ Mixed declares statements → ¬ Several declares statements → ¬ Crowded declares statements →
      statement ∈ statements → declares statement node kind → className? node = some name →
      Verdict declares statements (.goesOn node kind name)

variable {statements others : List Node} {statement node : Node} {kind marker : Marker} {source : List Char}
  {table : MarkerTable} {marked : MarkedClass}

/-! ### Items -/

theorem declaresType_iff : DeclaresType statement ↔ isTypeDeclaration statement = true := by
  constructor
  · rintro (⟨rfl | rfl⟩ | ⟨rfl | rfl⟩) <;> rfl
  · intro h
    unfold isTypeDeclaration at h
    split at h
    · exact .plain (.inl rfl)
    · exact .plain (.inr rfl)
    · exact .exported (.inl rfl)
    · exact .exported (.inr rfl)
    · cases h

instance : DecidablePred DeclaresType := fun _ => decidable_of_iff _ declaresType_iff.symm

theorem declaresClass_iff : DeclaresClass statement node ↔ classOf? statement = some node := by
  constructor
  · rintro (_ | _ | _) <;> rfl
  · intro h
    unfold classOf? at h
    split at h <;> cases h
    · exact .plain
    · exact .exported
    · exact .exportedDefault

def markedBy? (table : MarkerTable) (statement : Node) : Option MarkedClass :=
  (classOf? statement).bind (markedClass? table statement.span)

/-- What a name between the braces of an import binds. -/
def importedName? : Node → Option ImportedName
  | .mk (.importNamed imported typeOnly) _ parts =>
    (parts.findSome? bindingName?).map fun bound => ⟨imported, bound, typeOnly⟩
  | _ => none

/-- The name that the last part of some shape binds. -/
def boundBy? (shape : Shape) (parts : List Node) : Option String :=
  (parts.filter fun part => part.shape = shape).getLast?.bind fun part => part.parts.findSome? bindingName?

/-- The record of an import from another module than that of the markers: its module and all that it binds. -/
def otherImport? : Node → Option Import
  | .mk (.importDeclaration source typeOnly) _ parts =>
    if source = markerModule then none
    else some {
      source, typeOnly
      defaultName := boundBy? .importDefault parts
      namespaceName := boundBy? .importNamespace parts
      named := parts.filterMap importedName? }
  | _ => none

/-- One more part of an import binds one more name, or another one in place of the last. -/
theorem boundBy?_concat (shape : Shape) (parts : List Node) (part : Node) : boundBy? shape (parts ++ [part]) =
    if part.shape = shape then part.parts.findSome? bindingName? else boundBy? shape parts := by
  unfold boundBy?
  by_cases h : part.shape = shape <;> simp [h]

theorem addImported_eq (record : Import) (part : Node) : addImported record part = { record with
    defaultName := if part.shape = .importDefault then part.parts.findSome? bindingName? else record.defaultName
    namespaceName := if part.shape = .importNamespace then part.parts.findSome? bindingName? else record.namespaceName
    named := record.named ++ (importedName? part).toList } := by
  unfold addImported
  split
  · next imported typeOnly span parts =>
    have hb := head?_filterMap (f := bindingName?) (l := parts)
    cases h : parts.filterMap bindingName? <;> simp [importedName?, ← hb, h, Node.shape]
  · simp [importedName?, Node.shape, Node.parts, head?_filterMap]
  · simp [importedName?, Node.shape, Node.parts, head?_filterMap]
  · next hn hd hs =>
    obtain ⟨shape, span, parts⟩ := part
    have hno : importedName? (.mk shape span parts) = none := by
      unfold importedName?
      split
      · next heq => exact absurd heq (hn _ _ _ _)
      · rfl
    rw [hno, if_neg (by rintro rfl; exact hd _ _ rfl), if_neg (by rintro rfl; exact hs _ _ rfl)]
    simp

theorem foldl_addImported (source : String) (typeOnly : Bool) (parts : List Node) :
    parts.foldl addImported { source, typeOnly } = {
      source, typeOnly
      defaultName := boundBy? .importDefault parts
      namespaceName := boundBy? .importNamespace parts
      named := parts.filterMap importedName? } := by
  induction parts using List.reverseRecOn with
  | nil => rfl
  | append_singleton parts part ih =>
    have ho : [part].filterMap importedName? = (importedName? part).toList := by
      cases h : importedName? part <;> simp [h]
    rw [foldl_concat, ih, addImported_eq, boundBy?_concat, boundBy?_concat, filterMap_append, ho]

/-- What a statement is read as, and what it is then not. -/
inductive ItemOf (source : List Char) (table : MarkerTable) (statement : Node) : UnitItem → Prop
  | imported {record : Import} (hbeside : IsBeside statement) (hrecord : otherImport? statement = some record)
      (htype : ¬ DeclaresType statement) : ItemOf source table statement (.imported record)
  | declaration (hbeside : IsBeside statement) (hrecord : otherImport? statement = none)
      (htype : DeclaresType statement) : ItemOf source table statement (.declaration (statement.span.text source))
  | nothing (hbeside : IsBeside statement) (hrecord : otherImport? statement = none)
      (htype : ¬ DeclaresType statement) : ItemOf source table statement .nothing
  | marked {value : MarkedClass} (hbeside : ¬ IsBeside statement) (hmarked : markedBy? table statement = some value) :
      ItemOf source table statement (.marked value)
  | extraneous (hbeside : ¬ IsBeside statement) (hmarked : markedBy? table statement = none) :
      ItemOf source table statement (.extraneous statement.span)

theorem itemOf_unitItem (source : List Char) (table : MarkerTable) (statement : Node) :
    ItemOf source table statement (unitItem source table statement) := by
  unfold unitItem
  split
  · next module typeOnly span parts =>
    have hb : IsBeside (.mk (.importDeclaration module typeOnly) span parts) := .inl ⟨_, _, rfl⟩
    have ht : ¬ DeclaresType (.mk (.importDeclaration module typeOnly) span parts) := by
      simp [declaresType_iff, isTypeDeclaration]
    split
    · next hm => exact .nothing hb (if_pos (eq_of_beq hm)) ht
    · next hm =>
      refine .imported hb ?_ ht
      rw [otherImport?, if_neg (by simpa using hm), foldl_addImported]
  · next span parts => exact .nothing (.inr (.inl rfl)) rfl (by simp [declaresType_iff, isTypeDeclaration])
  · next hi he =>
    have hr : otherImport? statement = none := by
      unfold otherImport?
      split
      · exact absurd rfl (hi _ _ _ _)
      · rfl
    split
    · next ht => exact .declaration (.inr (.inr (declaresType_iff.mpr ht))) hr (declaresType_iff.mpr ht)
    · next ht =>
      have hb : ¬ IsBeside statement := by
        rcases statement with ⟨shape, span, parts⟩
        rintro (⟨module, typeOnly, rfl⟩ | rfl | h)
        · exact hi _ _ _ _ rfl
        · exact he _ _ rfl
        · exact ht (declaresType_iff.mp h)
      split
      · next value hv => exact .marked hb hv
      · next hn => exact .extraneous hb hn

/-- What may stand beside a class declares none. -/
theorem classOf?_of_isBeside (h : IsBeside statement) : classOf? statement = none := by
  rw [IsBeside, declaresType_iff] at h
  unfold classOf?
  split
  case h_4 => rfl
  all_goals rcases h with ⟨_, _, h⟩ | h | h <;> cases h

theorem markedBy?_of_isBeside (h : IsBeside statement) : markedBy? table statement = none := by
  rw [markedBy?, classOf?_of_isBeside h]
  rfl

theorem otherImport?_of_not_isBeside (h : ¬ IsBeside statement) : otherImport? statement = none := by
  unfold otherImport?
  split
  · exact absurd (.inl ⟨_, _, rfl⟩) h
  · rfl

theorem not_declaresType_of_not_isBeside (h : ¬ IsBeside statement) : ¬ DeclaresType statement :=
  fun ht => h (.inr (.inr ht))

/-- What is picked from the items of a unit is picked from its statements. -/
theorem filterMap_items {α : Type} {pick : UnitItem → Option α} {f : Node → Option α}
    (h : ∀ {statement item}, ItemOf source table statement item → pick item = f statement) :
    (statements.map (unitItem source table)).filterMap pick = statements.filterMap f := by
  rw [filterMap_map]
  exact filterMap_congr fun statement _ => h (itemOf_unitItem source table statement)

theorem markedOf_items : markedOf (statements.map (unitItem source table)) = statements.filterMap (markedBy? table) := by
  refine filterMap_items fun hi => ?_
  cases hi with
  | imported hb | declaration hb | nothing hb => rw [markedBy?_of_isBeside hb]
  | marked _ hm | extraneous _ hm => rw [hm]

theorem extraneousOf_items : extraneousOf (statements.map (unitItem source table)) = [] ↔
    ∀ statement ∈ statements, IsBeside statement ∨ (markedBy? table statement).isSome := by
  rw [extraneousOf, filterMap_map, filterMap_eq_nil_iff]
  refine forall₂_congr fun statement _ => ?_
  have hi := itemOf_unitItem source table statement
  rw [Function.comp_apply]
  generalize unitItem source table statement = item at hi
  cases hi with
  | imported hb | declaration hb | nothing hb => simp [hb]
  | marked _ hm => simp [hm]
  | extraneous hb hm => simp [hb, hm]

/-- The imports of a unit are those from other modules, in their order. -/
theorem importsOf_items (source : List Char) (table : MarkerTable) (statements : List Node) :
    importsOf (statements.map (unitItem source table)) = statements.filterMap otherImport? := by
  refine filterMap_items fun hi => ?_
  cases hi with
  | imported _ hr | declaration _ hr | nothing _ hr => rw [hr]
  | marked hb | extraneous hb => rw [otherImport?_of_not_isBeside hb]

/-- The declarations of a unit are the texts of its types, in their order. -/
theorem declarationsOf_items (source : List Char) (table : MarkerTable) (statements : List Node) :
    declarationsOf (statements.map (unitItem source table)) =
      (statements.filter (DeclaresType ·)).map (·.span.text source) := by
  rw [← filterMap_eq_filter, map_filterMap]
  refine filterMap_items fun hi => ?_
  cases hi with
  | imported _ _ ht | declaration _ _ ht | nothing _ _ ht => simp [Option.guard, ht]
  | marked hb | extraneous hb => simp [Option.guard, not_declaresType_of_not_isBeside hb]

/-! ### Marked classes -/

def classMarkerAt? (table : MarkerTable) (decorator : Node) : Option (Marker × Node) :=
  match table.ofDecorator? decorator with
  | some marker => if marker.isClassMarker then some (marker, decorator) else none
  | none => none

theorem classMarker?_eq : classMarker? table node = (node.parts.filter isDecorator).findSome? (classMarkerAt? table) :=
  rfl

theorem classMarkerAt?_eq_some_iff (h : MarkersDistinct statements) {decorator found : Node} :
    classMarkerAt? (MarkerTable.ofStatements statements) decorator = some (kind, found) ↔
      decorator = found ∧ DecoratorDenotes statements decorator kind ∧ kind.isClassMarker = true := by
  rw [← ofDecorator?_eq_some_iff h, classMarkerAt?]
  cases (MarkerTable.ofStatements statements).ofDecorator? decorator <;> grind

theorem classMarkerAt?_eq_none_iff (h : MarkersDistinct statements) {decorator : Node} :
    classMarkerAt? (MarkerTable.ofStatements statements) decorator = none ↔
      ∀ marker, DecoratorDenotes statements decorator marker → marker.isClassMarker = false := by
  simp only [← ofDecorator?_eq_some_iff h, classMarkerAt?]
  cases (MarkerTable.ofStatements statements).ofDecorator? decorator <;> simp

theorem exists_classMarker?_iff (h : MarkersDistinct statements) : (∃ decorator,
    classMarker? (MarkerTable.ofStatements statements) node = some (kind, decorator)) ↔ HasKind statements node kind := by
  simp only [classMarker?_eq, findSome?_eq_some_iff, classMarkerAt?_eq_some_iff h, classMarkerAt?_eq_none_iff h]
  constructor
  · rintro ⟨decorator, before, found, after, hp, ⟨rfl, hk, hc⟩, hb⟩
    exact ⟨before, found, after, hp, hk, hc, hb⟩
  · rintro ⟨before, decorator, after, hp, hk, hc, hb⟩
    exact ⟨decorator, before, decorator, after, hp, ⟨rfl, hk, hc⟩, hb⟩

theorem exists_markedBy?_iff (h : MarkersDistinct statements) : (∃ marked : MarkedClass,
    markedBy? (MarkerTable.ofStatements statements) statement = some marked ∧ marked.node = node ∧ marked.kind = kind) ↔
      Declares statements statement node kind := by
  simp only [Declares, declaresClass_iff, ← exists_classMarker?_iff h, markedBy?, Option.bind_eq_some_iff, markedClass?,
    Option.map_eq_some_iff]
  constructor
  · rintro ⟨marked, ⟨class_, hc, ⟨kind, decorator⟩, hm, rfl⟩, rfl, rfl⟩
    exact ⟨hc, decorator, hm⟩
  · rintro ⟨hc, decorator, hm⟩
    exact ⟨_, ⟨node, hc, ⟨kind, decorator⟩, hm, rfl⟩, rfl, rfl⟩

theorem declares_of_markedBy? (h : MarkersDistinct statements)
    (hm : markedBy? (MarkerTable.ofStatements statements) statement = some marked) :
    Declares statements statement marked.node marked.kind :=
  (exists_markedBy?_iff h).mp ⟨marked, hm, rfl, rfl⟩

theorem isMarked_iff (h : MarkersDistinct statements) :
    IsMarked (Declares statements) statement ↔ (markedBy? (MarkerTable.ofStatements statements) statement).isSome := by
  rw [Option.isSome_iff_exists]
  constructor
  · rintro ⟨node, kind, hd⟩
    obtain ⟨marked, hm, -⟩ := (exists_markedBy?_iff h).mpr hd
    exact ⟨marked, hm⟩
  · rintro ⟨marked, hm⟩
    exact ⟨_, _, declares_of_markedBy? h hm⟩

theorem eq_of_isClassMarker (h : kind.isClassMarker) : kind = .component ∨ kind = .provider := by
  cases kind <;> simp_all [Marker.isClassMarker]

/-- More than one thing is collected from a list if and only if two of its items give something. -/
theorem one_lt_length_filterMap_iff {α β : Type} {f : α → Option β} {items : List α} : 1 < (items.filterMap f).length ↔
      ∃ first second, [first, second].Subperm items ∧ (f first).isSome ∧ (f second).isSome := by
  constructor
  · intro h
    match hfd : items.filterMap f with
    | [] => simp [hfd] at h
    | [_] => simp [hfd] at h
    | x :: y :: _ =>
      obtain ⟨before, first, between, rfl, -, hf, hr⟩ := filterMap_eq_cons_iff.mp hfd
      obtain ⟨between, second, after, rfl, -, hs, -⟩ := filterMap_eq_cons_iff.mp hr
      have hs' : [second].Sublist (between ++ second :: after) := (singleton_sublist).mpr (mem_append_right _ (.head _))
      refine ⟨first, second, ?_, by simp [hf], by simp [hs]⟩
      exact ((hs'.cons_cons first).trans (sublist_append_right ..)).subperm
  · rintro ⟨first, second, ⟨pair, hp, hsu⟩, hf, hs⟩
    obtain ⟨x, hx⟩ := Option.isSome_iff_exists.mp hf
    obtain ⟨y, hy⟩ := Option.isSome_iff_exists.mp hs
    have hl := (hsu.filterMap f).length_le
    rw [(hp.filterMap f).length_eq] at hl
    simpa [hx, hy, Nat.lt_iff_add_one_le] using hl

theorem several_iff (h : MarkersDistinct statements) : Several (Declares statements) statements ↔
    1 < (statements.filterMap (markedBy? (MarkerTable.ofStatements statements))).length := by
  rw [one_lt_length_filterMap_iff, Several]
  simp only [isMarked_iff h]

theorem crowded_iff (h : MarkersDistinct statements) : Crowded (Declares statements) statements ↔
    extraneousOf (statements.map (unitItem source (MarkerTable.ofStatements statements))) ≠ [] := by
  rw [Ne, extraneousOf_items, Crowded]
  simp only [isMarked_iff h]
  grind

/-! ### Verdicts are exact -/

/-- What comes of a unit with some items. -/
def outcomeOf : Except Error (MarkedClass × String) → Outcome
  | .error error => .stops error.code
  | .ok (marked, name) => .goesOn marked.node marked.kind name

def unitItems (source : List Char) (statements : List Node) : List UnitItem :=
  statements.map (unitItem source (.ofStatements statements))

/-- The marked classes of a unit. -/
def marksOf (statements : List Node) : List MarkedClass := statements.filterMap (markedBy? (.ofStatements statements))

theorem mem_marksOf (h : MarkersDistinct statements) (hm : marked ∈ marksOf statements) :
    ∃ statement ∈ statements, Declares statements statement marked.node marked.kind := by
  obtain ⟨statement, hs, hb⟩ := mem_filterMap.mp hm
  exact ⟨statement, hs, declares_of_markedBy? h hb⟩

theorem exists_mem_marksOf (h : MarkersDistinct statements) (hs : statement ∈ statements)
    (hd : Declares statements statement node kind) :
    ∃ marked ∈ marksOf statements, marked.node = node ∧ marked.kind = kind := by
  obtain ⟨marked, hm, hn, hk⟩ := (exists_markedBy?_iff h).mpr hd
  exact ⟨marked, mem_filterMap.mpr ⟨statement, hs, hm⟩, hn, hk⟩

theorem isClass_of_mem_marksOf (h : MarkersDistinct statements) (hm : marked ∈ marksOf statements) :
    marked.kind = .component ∨ marked.kind = .provider := by
  obtain ⟨statement, -, -, -, -, -, -, -, hc, -⟩ := mem_marksOf h hm
  exact eq_of_isClassMarker hc

theorem mixed_iff (h : MarkersDistinct statements) : Mixed (Declares statements) statements ↔
      ∃ first ∈ marksOf statements, ∃ second ∈ marksOf statements, first.kind ≠ second.kind := by
  constructor
  · rintro ⟨⟨first, hf, node, hn⟩, second, hs, node', hn'⟩
    obtain ⟨marked, hm, -, hk⟩ := exists_mem_marksOf h hf hn
    obtain ⟨marked', hm', -, hk'⟩ := exists_mem_marksOf h hs hn'
    exact ⟨marked, hm, marked', hm', by simp [hk, hk']⟩
  · rintro ⟨first, hf, second, hs, hne⟩
    obtain ⟨statement, hst, hd⟩ := mem_marksOf h hf
    obtain ⟨statement', hs', hd'⟩ := mem_marksOf h hs
    rcases isClass_of_mem_marksOf h hf with hk | hk <;>
      rcases isClass_of_mem_marksOf h hs with hk' | hk' <;> rw [hk] at hd <;> rw [hk'] at hd'
    · exact absurd (hk.trans hk'.symm) hne
    · exact ⟨⟨_, hst, _, hd⟩, _, hs', _, hd'⟩
    · exact ⟨⟨_, hs', _, hd'⟩, _, hst, _, hd⟩
    · exact absurd (hk.trans hk'.symm) hne

theorem not_mixed_of_find? {first : MarkedClass} {rest : List MarkedClass} (h : MarkersDistinct statements)
    (hmr : marksOf statements = first :: rest) (hf : rest.find? (fun other => other.kind != first.kind) = none) :
    ¬ Mixed (Declares statements) statements := by
  rw [mixed_iff h, hmr]
  have hk : ∀ marked ∈ first :: rest, marked.kind = first.kind := by
    intro marked hm
    rcases mem_cons.mp hm with rfl | hr
    · rfl
    · simpa using find?_eq_none.mp hf marked hr
  rintro ⟨one, ho, other, hot, hn⟩
  exact hn ((hk one ho).trans (hk other hot).symm)

theorem verdict_onlyClass (h : MarkersDistinct statements) (source : List Char) :
    Verdict (Declares statements) statements (outcomeOf (onlyClass source (unitItems source statements))) := by
  have hmo : markedOf (unitItems source statements) = marksOf statements := markedOf_items
  have hc : Crowded (Declares statements) statements ↔ extraneousOf (unitItems source statements) ≠ [] := crowded_iff h
  have hse : Several (Declares statements) statements ↔ 1 < (marksOf statements).length := several_iff h
  unfold onlyClass
  rw [hmo]
  split
  · next hm =>
    refine .unmarked ?_
    rintro ⟨statement, hs, node, kind, hd⟩
    obtain ⟨marked, hme, -⟩ := exists_mem_marksOf h hs hd
    rw [hm] at hme
    cases hme
  · next first rest hm =>
    have hfs : first ∈ marksOf statements := hm ▸ .head _
    obtain ⟨statement, hs, hd⟩ := mem_marksOf h hfs
    have hmk : Marked (Declares statements) statements := ⟨statement, hs, _, _, hd⟩
    rw [hm] at hse
    split
    · next mixed hf =>
      have hmi : mixed ∈ marksOf statements := hm ▸ .tail _ (mem_of_find?_eq_some hf)
      have hne : mixed.kind ≠ first.kind := by simpa using find?_some hf
      exact .mixed hmk ((mixed_iff h).mpr ⟨mixed, hmi, first, hfs, hne⟩)
    · next second others hf => exact .several hmk (not_mixed_of_find? h hm hf) (hse.mpr (by simp))
    · next span spans he hf =>
      refine .crowded hmk (not_mixed_of_find? h hm hf) (by simp [hse]) (hc.mpr ?_)
      rw [he]
      exact cons_ne_nil _ _
    · next he hf =>
      have hmi := not_mixed_of_find? h hm hf
      have ha : ¬ Several (Declares statements) statements := by simp [hse]
      have hb : ¬ Crowded (Declares statements) statements := fun h => hc.mp h he
      dsimp only
      split
      · next name hn => exact .named hmk hmi ha hb hs hd hn
      · next hn => exact .anonymous hmk hmi ha hb hs hd hn

/-- The only marked class of a unit is one class. -/
theorem Declares.unique {first second node' : Node} {kind' : Marker} (h : MarkersDistinct statements)
    (hs : ¬ Several (Declares statements) statements) (hf : first ∈ statements) (hsn : second ∈ statements)
    (hd : Declares statements first node kind) (hd' : Declares statements second node' kind') :
    node = node' ∧ kind = kind' := by
  obtain ⟨marked, hm, rfl, rfl⟩ := exists_mem_marksOf h hf hd
  obtain ⟨marked', hm', rfl, rfl⟩ := exists_mem_marksOf h hsn hd'
  rw [several_iff h] at hs
  change ¬ 1 < (marksOf statements).length at hs
  match hmr : marksOf statements with
  | [] => simp [hmr] at hm
  | [only] =>
    rw [hmr, mem_singleton] at hm hm'
    subst hm hm'
    exact ⟨rfl, rfl⟩
  | _ :: _ :: _ => simp [hmr] at hs

/-- A unit has one verdict: the conditions exclude one another, and the only class is one class. -/
theorem verdict_unique {first second : Outcome} (h : MarkersDistinct statements)
    (hf : Verdict (Declares statements) statements first) (hsn : Verdict (Declares statements) statements second) : first = second := by
  cases hf with
  | anonymous _ _ hs _ hst hd hn =>
    cases hsn with
    | anonymous => rfl
    | named _ _ _ _ hs' hd' hn' =>
      obtain ⟨rfl, rfl⟩ := hd.unique h hs hst hs' hd'
      rw [hn] at hn'
      cases hn'
    | _ => contradiction
  | named _ _ hs _ hst hd hn =>
    cases hsn with
    | anonymous _ _ _ _ hs' hd' hn' =>
      obtain ⟨rfl, rfl⟩ := hd.unique h hs hst hs' hd'
      rw [hn] at hn'
      cases hn'
    | named _ _ _ _ hs' hd' hn' =>
      obtain ⟨rfl, rfl⟩ := hd.unique h hs hst hs' hd'
      rw [hn] at hn'
      cases hn'
      rfl
    | _ => contradiction
  | _ => cases hsn <;> trivial

theorem verdict_iff (h : MarkersDistinct statements) (source : List Char) {outcome : Outcome} :
    Verdict (Declares statements) statements outcome ↔
      outcomeOf (onlyClass source (unitItems source statements)) = outcome := by
  refine ⟨fun hv => verdict_unique h (verdict_onlyClass h source) hv, ?_⟩
  rintro rfl
  exact verdict_onlyClass h source

/-! ### The order of statements -/

theorem HasKind.perm (h : HasKind statements node kind) (hp : others.Perm statements) : HasKind others node kind := by
  obtain ⟨before, decorator, after, hpt, hk, hc, hb⟩ := h
  refine ⟨before, decorator, after, hpt, hk.perm hp, hc, fun other ho marker hm => ?_⟩
  exact hb other ho marker (hm.perm hp.symm)

theorem declares_perm (hp : others.Perm statements) :
    Declares others statement node kind ↔ Declares statements statement node kind :=
  and_congr_right fun _ => ⟨fun h => h.perm hp.symm, fun h => h.perm hp⟩

/-- The verdict does not depend on the order of statements, and only on what these statements declare. -/
theorem Verdict.congr {declares declares' : Node → Node → Marker → Prop} {outcome : Outcome}
    (h : Verdict declares statements outcome) (hpe : others.Perm statements)
    (hd : ∀ statement ∈ statements, ∀ node kind, declares' statement node kind ↔ declares statement node kind) :
    Verdict declares' others outcome := by
  have hi : ∀ statement ∈ statements, (IsMarked declares' statement ↔ IsMarked declares statement) :=
    fun statement hs => exists_congr fun node => exists_congr fun kind => hd statement hs node kind
  have hm : Marked declares' others ↔ Marked declares statements := by
    simp only [Marked, hpe.mem_iff]
    exact exists_congr fun statement => and_congr_right (hi statement)
  have hx : Mixed declares' others ↔ Mixed declares statements := by
    simp only [Mixed, hpe.mem_iff]
    exact and_congr (exists_congr fun _ => and_congr_right fun hs => exists_congr fun _ => hd _ hs _ _)
      (exists_congr fun _ => and_congr_right fun hs => exists_congr fun _ => hd _ hs _ _)
  have hv : Several declares' others ↔ Several declares statements := by
    simp only [Several, hpe.subperm_left]
    refine exists_congr fun first => exists_congr fun second => and_congr_right fun hp => ?_
    rw [hi first (hp.subset (.head _)), hi second (hp.subset (.tail _ (.head _)))]
  have hc : Crowded declares' others ↔ Crowded declares statements := by
    simp only [Crowded, hpe.mem_iff]
    exact exists_congr fun statement => and_congr_right fun hs => and_congr_left fun _ => (hi statement hs).not
  cases h with
  | unmarked h1 => exact .unmarked (hm.not.mpr h1)
  | mixed h1 h2 => exact .mixed (hm.mpr h1) (hx.mpr h2)
  | several h1 h2 h3 => exact .several (hm.mpr h1) (hx.not.mpr h2) (hv.mpr h3)
  | crowded h1 h2 h3 h4 => exact .crowded (hm.mpr h1) (hx.not.mpr h2) (hv.not.mpr h3) (hc.mpr h4)
  | anonymous h1 h2 h3 h4 hs h5 hn =>
    exact .anonymous (hm.mpr h1) (hx.not.mpr h2) (hv.not.mpr h3) (hc.not.mpr h4) (hpe.mem_iff.mpr hs)
      ((hd _ hs _ _).mpr h5) hn
  | named h1 h2 h3 h4 hs h5 hn =>
    exact .named (hm.mpr h1) (hx.not.mpr h2) (hv.not.mpr h3) (hc.not.mpr h4) (hpe.mem_iff.mpr hs)
      ((hd _ hs _ _).mpr h5) hn

/-! ### Classes with both markers -/

theorem HasKind.carries (h : HasKind statements node kind) : Carries statements node kind := by
  obtain ⟨before, decorator, after, hp, hk, hc, -⟩ := h
  have hm : decorator ∈ node.parts.filter isDecorator := hp ▸ mem_append_right _ (.head _)
  obtain ⟨hm, hd⟩ := mem_filter.mp hm
  exact ⟨hc, decorator, hm, eq_of_beq hd, hk⟩

/-- The kind of a class that carries a class marker is one that it carries. -/
theorem Carries.exists_hasKind (h : MarkersDistinct statements) (hc : Carries statements node kind) :
    ∃ kind', HasKind statements node kind' := by
  obtain ⟨hcl, decorator, hme, hd, hk⟩ := hc
  cases hm : classMarker? (MarkerTable.ofStatements statements) node with
  | some found => exact ⟨found.1, (exists_classMarker?_iff h).mp ⟨found.2, hm⟩⟩
  | none =>
    rw [classMarker?_eq, findSome?_eq_none_iff] at hm
    have hn := hm decorator (mem_filter.mpr ⟨hme, beq_iff_eq.mpr hd⟩)
    rw [(classMarkerAt?_eq_none_iff h).mp hn kind hk] at hcl
    cases hcl

theorem declares_iff_of_unmixed (h : MarkersDistinct statements) (hu : Unmixed statements)
    (hs : statement ∈ statements) : Declares statements statement node kind ↔
      DeclaresCarrying statements statement node kind := by
  refine and_congr_right fun hcl => ⟨HasKind.carries, fun hc => ?_⟩
  obtain ⟨kind', hk⟩ := hc.exists_hasKind h
  have hb := hu statement hs node hcl
  have hc' := hk.carries
  rcases eq_of_isClassMarker hc.1 with rfl | rfl <;> rcases eq_of_isClassMarker hc'.1 with rfl | rfl
  · exact hk
  · exact absurd ⟨hc, hc'⟩ hb
  · exact absurd ⟨hc', hc⟩ hb
  · exact hk

/-- Whether a class carries both class markers, by the table of its unit. -/
def carriesBoth (statements : List Node) (node : Node) : Bool :=
  [Marker.component, .provider].all fun kind => node.parts.any fun part =>
    isDecorator part && (MarkerTable.ofStatements statements).ofDecorator? part == some kind

theorem carriesBoth_iff (h : MarkersDistinct statements) : carriesBoth statements node ↔
    Carries statements node .component ∧ Carries statements node .provider := by
  simp [carriesBoth, Carries, isDecorator, ← ofDecorator?_eq_some_iff h, Marker.isClassMarker]

theorem unmixed_iff (h : MarkersDistinct statements) :
    Unmixed statements ↔ (statements.filterMap classOf?).all (!carriesBoth statements ·) = true := by
  simp only [Unmixed, ← carriesBoth_iff h, declaresClass_iff, all_eq_true, mem_filterMap,
    Bool.not_eq_true', Bool.not_eq_true]
  exact ⟨fun hu node ⟨s, hs, hc⟩ => hu s hs node hc, fun ha s hs node hc => ha node ⟨s, hs, hc⟩⟩

end Polyview
