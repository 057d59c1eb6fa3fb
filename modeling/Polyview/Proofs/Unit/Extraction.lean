import Mathlib.Data.List.Nodup
import Polyview.Proofs.Unit.Roles
import Polyview.Proofs.Unit.Shape

/-! # From the shape of a unit to what it declares

Extraction stops with the verdict on the shape of a unit, or goes on with the only marked class. What may fail after that
has other codes, so the codes for the shape tell the verdict and nothing else (`stopsWith_iff`). -/

namespace Polyview

open List Script

/-- The codes of faults in the shape of a unit. -/
def Code.isShape : Code → Bool
  | .noComponent | .multipleComponents | .mixedUnit | .extraneousStatement | .anonymousClass => true
  | _ => false

/-- A failure, if there is one, is not about the shape of a unit. -/
def BeyondShape {α : Type} (result : Except Error α) : Prop :=
  ∀ error, result = .error error → error.code.isShape = false

namespace BeyondShape

variable {α β : Type} {source : List Char} {node : Node} {nodes : List Node}

theorem ok (value : α) : BeyondShape (.ok value) := fun _ h => nomatch h

theorem error {e : Error} (h : e.code.isShape = false) : BeyondShape (.error e : Except Error α) := fun _ heq => by
  cases heq
  exact h

theorem bind {x : Except Error α} {f : α → Except Error β} (hx : BeyondShape x) (hf : ∀ value, BeyondShape (f value)) :
    BeyondShape (x >>= f) := by
  intro e h
  rcases bind_eq_error.mp h with h | ⟨value, -, h⟩
  · exact hx e h
  · exact hf value e h

theorem mapM {f : α → Except Error β} (h : ∀ a, BeyondShape (f a)) (items : List α) : BeyondShape (items.mapM f) := by
  induction items with
  | nil => exact .ok _
  | cons a rest ih =>
    rw [mapM_cons]
    exact .bind (h a) fun _ => .bind ih fun _ => .ok _

theorem foldlM {f : β → α → Except Error β} (h : ∀ b a, BeyondShape (f b a)) (items : List α) (start : β) :
    BeyondShape (items.foldlM f start) := by
  induction items generalizing start with
  | nil => exact .ok _
  | cons a rest ih =>
    rw [foldlM_cons]
    exact .bind (h start a) ih

/-! ### Lowering -/

theorem tagOf (source : List Char) (node : Node) : BeyondShape (Polyview.tagOf source node) := by
  unfold Polyview.tagOf
  split
  · exact .ok _
  · exact .ok _
  · exact .ok _
  · exact .error rfl

theorem rejectMarkup (source : List Char) (node : Node) : BeyondShape (Polyview.rejectMarkup source node) := by
  unfold Polyview.rejectMarkup
  split
  · exact .error rfl
  · exact .ok _

theorem codeValue (source : List Char) (node : Node) : BeyondShape (Polyview.codeValue source node) := by
  refine .bind (rejectMarkup source node) fun _ => ?_
  split
  · split
    · exact .ok _
    · exact .ok _
  · exact .ok _

theorem childOf {markup callback : Except Error (Option Template)} (hm : BeyondShape markup)
    (hc : BeyondShape callback) (node : Node) : BeyondShape (Polyview.childOf source markup callback node) := by
  unfold Polyview.childOf
  split
  · exact .ok _
  · refine .bind hm fun found => ?_
    split
    · exact .ok _
    · refine .bind hc fun found => ?_
      split
      · exact .ok _
      · exact .bind (rejectMarkup source _) fun _ => .ok _

mutual
theorem markupOf? (source : List Char) (node : Node) : BeyondShape (Polyview.markupOf? source node) := by
  unfold Polyview.markupOf?
  split
  · exact markupOf? source _
  · refine .bind (tagOf source _) fun tag => .bind (attributesOf source tag _) fun attributes => ?_
    split
    · exact .ok _
    · exact .bind (childrenOf source _) fun _ => .ok _
  · exact .bind (childrenOf source _) fun _ => .ok _
  · exact .ok _
termination_by sizeOf node

theorem attributesOf (source : List Char) (tag : String) (nodes : List Node) :
    BeyondShape (Polyview.attributesOf source tag nodes) := by
  unfold Polyview.attributesOf
  split
  · exact .ok _
  · exact .bind (attributeValue source _) fun _ => .bind (attributesOf source tag _) fun _ => .ok _
  · exact .error rfl
  · exact attributesOf source tag _
termination_by sizeOf nodes

theorem attributeValue (source : List Char) (nodes : List Node) :
    BeyondShape (Polyview.attributeValue source nodes) := by
  unfold Polyview.attributeValue
  split
  · exact .ok _
  · exact .ok _
  · refine .bind (markupOf? source _) fun found => ?_
    split
    · exact .ok _
    · exact codeValue source _
  · refine .bind (markupOf? source _) fun found => ?_
    split
    · exact .ok _
    · exact .ok _
  · exact .ok _
termination_by sizeOf nodes

theorem childrenOf (source : List Char) (nodes : List Node) : BeyondShape (Polyview.childrenOf source nodes) := by
  unfold Polyview.childrenOf
  split
  · exact .ok _
  · exact .bind (childrenOf source _) fun _ => .ok _
  · refine .bind (childOf (markupOf? source _) (callbackOf? source _) _) fun _ => ?_
    exact .bind (childrenOf source _) fun _ => .ok _
  · exact .error rfl
  · exact .bind (markupOf? source _) fun _ => .bind (childrenOf source _) fun _ => .ok _
termination_by sizeOf nodes

theorem callbackOf? (source : List Char) (node : Node) : BeyondShape (Polyview.callbackOf? source node) := by
  unfold Polyview.callbackOf?
  split
  · exact callbackOf? source _
  · refine .bind (returnedMarkup? source _ _) fun found => ?_
    split
    · exact .ok _
    · exact .ok _
  · exact .ok _
termination_by sizeOf node

theorem returnedMarkup? (source : List Char) (isExpression : Bool) (nodes : List Node) :
    BeyondShape (Polyview.returnedMarkup? source isExpression nodes) := by
  unfold Polyview.returnedMarkup?
  split
  · exact .ok _
  · split
    · exact .ok _
    · exact markupOf? source _
  · split
    · exact markupOf? source _
    · exact .ok _
  · exact returnedMarkup? source isExpression _
termination_by sizeOf nodes
end

theorem rootOf (source : List Char) (node : Node) : BeyondShape (Polyview.rootOf source node) := by
  refine .bind (markupOf? source node) fun found => ?_
  split
  · exact .ok _
  · exact .error rfl

/-! ### Options -/

theorem literalText (source : List Char) (key : String) (node : Node) :
    BeyondShape (Polyview.literalText source key node) := by
  unfold Polyview.literalText
  split
  · exact .ok _
  · exact .ok _
  · exact .error rfl

theorem optionEntry (source : List Char) (node : Node) : BeyondShape (Polyview.optionEntry source node) := by
  have hk (span : Span) (key value : Node) : BeyondShape (optionEntry.keyed source span key value) := by
    unfold optionEntry.keyed
    split
    · exact .ok _
    · exact .ok _
    · exact .error rfl
    · exact .error rfl
  unfold Polyview.optionEntry
  split
  · exact hk _ _ _
  · exact hk _ _ _
  · exact .ok _
  · exact .error rfl

theorem addOption (source : List Char) (options : ComponentOptions) (node : Node) :
    BeyondShape (Polyview.addOption source options node) := by
  refine .bind (optionEntry source node) fun entry => ?_
  dsimp only
  split
  · exact .bind (literalText source _ _) fun _ => .ok _
  · split
    · exact .bind (literalText source _ _) fun _ => .ok _
    · exact .ok _

theorem componentOptions (source : List Char) (node : Node) : BeyondShape (Polyview.componentOptions source node) := by
  unfold Polyview.componentOptions
  split
  · split
    · exact .ok _
    · split
      · exact .foldlM (addOption source) _ _
      · exact .error rfl
  · exact .ok _

/-! ### Members -/

theorem of_reported {name : String} {members : List ClassMember}
    (h : ∀ code, reported name members = some code → code.isShape = false) :
    BeyondShape (validateMembers name members) := by
  intro e he
  exact h e.code (by rw [reported, he])

theorem code_of_check {check : Check} {m : ClassMember} {code : Code} (hc : check ∈ memberChecks)
    (h : check.code? m = some code) : code.isShape = false := by
  rw [memberChecks_eq, mem_cons, mem_cons] at hc
  rcases hc with rfl | rfl | hc
  · rcases (code?_checkMemberKind m code).mp h with ⟨rfl, -⟩ | ⟨rfl, -⟩ <;> rfl
  · rcases (code?_checkMarkerCount m code).mp h with ⟨rfl, -⟩ | ⟨rfl, -⟩ <;> rfl
  · obtain ⟨⟨check, only⟩, hm, rfl⟩ := mem_map.mp hc
    obtain ⟨fault, hf, rfl⟩ := Option.map_eq_some_iff.mp h
    rw [code_of_plainRule hm hf]
    simp only [plainRules, mem_cons, Prod.mk.injEq, not_mem_nil, or_false] at hm
    rcases hm with ⟨-, rfl⟩ | ⟨-, rfl⟩ | ⟨-, rfl⟩ | ⟨-, rfl⟩ | ⟨-, rfl⟩ <;> rfl

theorem validateMembers (name : String) (members : List ClassMember) :
    BeyondShape (Polyview.validateMembers name members) := by
  refine of_reported fun code hc => ?_
  rw [reported_eq, reportOf, Option.or_eq_some_iff] at hc
  rcases hc with hc | ⟨-, hc⟩
  · obtain ⟨check, hch, hc⟩ := exists_of_findSome?_eq_some hc
    obtain ⟨m, -, hc⟩ := exists_of_findSome?_eq_some hc
    exact code_of_check hch hc
  · cases hf : members.findSome? renderFinding? with
    | none =>
      rw [hf] at hc
      cases hc
      rfl
    | some finding =>
      rw [hf] at hc
      obtain ⟨m, -, hm⟩ := exists_of_findSome?_eq_some hf
      rcases (renderFinding?_eq_some m finding).mp hm with ⟨rfl, -⟩ | ⟨rfl, -⟩
      · cases hc
      · cases hc
        rfl

theorem roleOf (m : ClassMember) : BeyondShape (Polyview.roleOf m) := by
  unfold Polyview.roleOf
  split
  · exact .ok _
  · exact .ok _
  · exact .ok _
  · exact .ok _
  · exact .ok _
  · unfold injectRole
    split
    · exact .ok _
    · exact .error rfl
  · unfold provideRole
    split
    · exact .error rfl
    · split
      · exact .error rfl
      · exact .ok _
  · exact .ok _

theorem checkRefs (c : Component) (node : Template) : BeyondShape (Polyview.checkRefs c node) := by
  unfold Polyview.checkRefs
  split
  · next e hf =>
    obtain ⟨a, -, hf⟩ := exists_of_findSome?_eq_some hf
    unfold refFault? at hf
    refine .error ?_
    grind [Error.code, Code.isShape]
  · exact .ok _

theorem componentOf (source : List Char) (table : MarkerTable) (comments : List Comment) (marked : MarkedClass)
    (name : String) (items : List UnitItem) :
    BeyondShape (Polyview.componentOf source table comments marked name items) := by
  refine .bind (componentOptions source _) fun options => .bind (validateMembers name _) fun _ => ?_
  refine .bind (.mapM roleOf _) fun roles => ?_
  dsimp only
  split
  · exact .error rfl
  · exact .bind (rootOf source _) fun template => .bind (checkRefs _ template) fun _ => .ok _

end BeyondShape

/-! ### Units -/

/-- What the only marked class of a unit declares. -/
def declaredBy (source : List Char) (comments : List Comment) (statements : List Node) (marked : MarkedClass)
    (name : String) : Except Error SourceUnit := do
  let table := MarkerTable.ofStatements statements
  let items := unitItems source statements
  if marked.kind == .provider then return .provider (providerOf source table marked name items)
  else return .component (← componentOf source table comments marked name items)

/-- What a unit with the given statements declares. -/
def unitOf (source : List Char) (comments : List Comment) (statements : List Node) : Except Error SourceUnit := do
  let (marked, name) ← onlyClass source (unitItems source statements)
  declaredBy source comments statements marked name

/-- The imports that a unit keeps. -/
def SourceUnit.imports : SourceUnit → List Import
  | .component c => c.imports
  | .provider p => p.imports

/-- The declarations that a unit keeps. -/
def SourceUnit.declarations : SourceUnit → List String
  | .component c => c.declarations
  | .provider p => p.declarations

/-- Extraction fails with a code. -/
def StopsWith (result : Except Error SourceUnit) (code : Code) : Prop :=
  ∃ error, result = .error error ∧ error.code = code

variable {source : List Char} {comments : List Comment} {statements others : List Node} {marked : MarkedClass}
  {name text : String} {code : Code} {unit : SourceUnit}

/-- Extraction reads the statements of a unit, and takes what they declare. -/
theorem extractUnit_eq {tree : Tree} (h : Script.parse? true text.toList = some tree) :
    extractUnit text = unitOf text.toList tree.comments tree.root.parts := by
  rw [extractUnit]
  simp only [h]
  rfl

theorem beyondShape_declaredBy : BeyondShape (declaredBy source comments statements marked name) := by
  unfold declaredBy
  dsimp only
  split
  · exact .ok _
  · exact .bind (.componentOf _ _ _ _ _ _) fun _ => .ok _

theorem stopsWith_iff (h : MarkersDistinct statements) (hc : code.isShape) :
    StopsWith (unitOf source comments statements) code ↔ Verdict (Declares statements) statements (.stops code) := by
  rw [verdict_iff h source, StopsWith, unitOf]
  cases onlyClass source (unitItems source statements) with
  | error error =>
    constructor
    · rintro ⟨other, heq, rfl⟩
      cases heq
      rfl
    · intro heq
      cases heq
      exact ⟨error, rfl, rfl⟩
  | ok found =>
    refine iff_of_false ?_ fun heq => nomatch heq
    rintro ⟨error, heq, rfl⟩
    rw [beyondShape_declaredBy error heq] at hc
    cases hc

theorem unitOf_eq_declaredBy {node : Node} {kind : Marker} (h : MarkersDistinct statements)
    (hv : Verdict (Declares statements) statements (.goesOn node kind name)) :
    ∃ marked : MarkedClass, marked.node = node ∧
      marked.kind = kind ∧ unitOf source comments statements = declaredBy source comments statements marked name := by
  rw [verdict_iff h source] at hv
  rw [unitOf]
  cases ho : onlyClass source (unitItems source statements) with
  | error error =>
    rw [ho] at hv
    cases hv
  | ok found =>
    rw [ho] at hv
    cases hv
    exact ⟨found.1, rfl, rfl, rfl⟩

theorem addRole_kept (c : Component) (role : MemberRole) :
    (c.addRole role).imports = c.imports ∧ (c.addRole role).declarations = c.declarations := by
  cases role <;> exact ⟨rfl, rfl⟩

theorem foldl_addRole_kept (roles : List MemberRole) (c : Component) :
    (roles.foldl Component.addRole c).imports = c.imports ∧
      (roles.foldl Component.addRole c).declarations = c.declarations := by
  induction roles generalizing c with
  | nil => exact ⟨rfl, rfl⟩
  | cons role rest ih =>
    obtain ⟨hi, hd⟩ := ih (c.addRole role)
    obtain ⟨hi', hd'⟩ := addRole_kept c role
    exact ⟨hi.trans hi', hd.trans hd'⟩

theorem kept_of_componentOf {table : MarkerTable} {items : List UnitItem} {c : Component}
    (h : componentOf source table comments marked name items = .ok c) :
    c.imports = importsOf items ∧ c.declarations = declarationsOf items := by
  obtain ⟨roles, bare, operand, template, -, -, hi, hd, -, -, -, rfl⟩ := componentOf_eq_ok h
  rw [← hi, ← hd]
  exact foldl_addRole_kept roles bare

/-- A unit keeps its imports from other modules and its types, in their order. -/
theorem kept_of_unitOf (h : unitOf source comments statements = .ok unit) :
    unit.imports = statements.filterMap otherImport? ∧
      unit.declarations = (statements.filter (DeclaresType ·)).map (·.span.text source) := by
  rw [← importsOf_items source (.ofStatements statements), ← declarationsOf_items source (.ofStatements statements)]
  obtain ⟨⟨marked, name⟩, -, h⟩ := bind_eq_ok.mp h
  unfold declaredBy at h
  dsimp only at h
  split at h
  · cases h
    exact ⟨rfl, rfl⟩
  · obtain ⟨c, hc, h⟩ := bind_eq_ok.mp h
    cases h
    exact kept_of_componentOf hc

/-- Names that are imported for markers once each are imported for one marker each. -/
theorem markersDistinct_of_nodup (h : ((MarkerTable.ofStatements statements).aliases.map Prod.fst).Nodup) :
    MarkersDistinct statements := by
  intro name marker other hm ho
  have heq := inj_on_of_nodup_map h (mem_aliases_iff.mpr hm) (mem_aliases_iff.mpr ho) rfl
  exact congrArg Prod.snd heq

/-- **The verdict on the shape of a unit is exact.** Extraction stops with a code for the shape if and only if that is the
verdict, and otherwise goes on with the only marked class, keeping the imports from other modules, with all that they
bind, and the texts of the types in their order. A class is of the kind of the first class marker among its decorators;
if no class carries both, then that is as good as being of each kind that it carries. The verdict is the same for every
order of the statements. -/
theorem unit_shape_verdict (source : List Char) (comments : List Comment) (statements : List Node)
    (h : MarkersDistinct statements) :
    (∀ text tree, text.toList = source → Script.parse? true source = some tree → tree.comments = comments →
      tree.root.parts = statements → extractUnit text = unitOf source comments statements) ∧
    (∀ code : Code, code.isShape = true → (StopsWith (unitOf source comments statements) code ↔
        Verdict (Declares statements) statements (.stops code))) ∧
    (Unmixed statements → ∀ outcome,
      Verdict (Declares statements) statements outcome ↔ Verdict (DeclaresCarrying statements) statements outcome) ∧
    (∀ node kind name, Verdict (Declares statements) statements (.goesOn node kind name) →
      ∃ marked : MarkedClass, marked.node = node ∧ marked.kind = kind ∧
        unitOf source comments statements = declaredBy source comments statements marked name) ∧
    (∀ unit, unitOf source comments statements = .ok unit → unit.imports = statements.filterMap otherImport? ∧
        unit.declarations = (statements.filter (DeclaresType ·)).map (·.span.text source)) ∧
    (∃! outcome, Verdict (Declares statements) statements outcome) ∧
    ∀ others : List Node, others.Perm statements →
      (∀ outcome, Verdict (Declares others) others outcome ↔ Verdict (Declares statements) statements outcome) ∧
      ∀ code : Code, code.isShape = true →
        (StopsWith (unitOf source comments others) code ↔ StopsWith (unitOf source comments statements) code) := by
  refine ⟨?_, fun code hc => stopsWith_iff h hc, fun hu outcome => ?_,
    fun node kind name => unitOf_eq_declaredBy h, fun unit => kept_of_unitOf, ⟨_, verdict_onlyClass h source, ?_⟩,
    fun others hp => ?_⟩
  · rintro text tree rfl hpa rfl rfl
    exact extractUnit_eq hpa
  · have hd : ∀ statement ∈ statements, ∀ node kind,
        Declares statements statement node kind ↔ DeclaresCarrying statements statement node kind :=
      fun statement hsa node kind => declares_iff_of_unmixed h hu hsa
    exact ⟨fun hv => hv.congr (.refl _) fun s hs n k => (hd s hs n k).symm, fun hv => hv.congr (.refl _) hd⟩
  · exact fun outcome ho => verdict_unique h ho (verdict_onlyClass h source)
  · have hv (outcome : Outcome) :
        Verdict (Declares others) others outcome ↔ Verdict (Declares statements) statements outcome :=
      ⟨fun hot => hot.congr hp.symm fun _ _ _ _ => declares_perm hp.symm,
        fun hst => hst.congr hp fun _ _ _ _ => declares_perm hp⟩
    refine ⟨hv, fun code hc => ?_⟩
    rw [stopsWith_iff (h.perm hp) hc, stopsWith_iff h hc, hv]

/-- A component with imports and types around it. -/
def unitSource : String :=
  "import Default, { used as local, type Kind } from \"other\";\nimport { Component as C } from \"@tessera/core\";\n" ++
  "interface Shown {}\n@C() class View \x7b render() { return <a/>; } \x7d\nexport type Name = string;"

/-- The unit is of a shape that extraction goes on with, and no class carries both markers. -/
theorem unit_shape_kept : ∃ tree unit node, Script.parse? true unitSource.toList = some tree ∧
    extractUnit unitSource = .ok unit ∧ MarkersDistinct tree.root.parts ∧
    Verdict (DeclaresCarrying tree.root.parts) tree.root.parts (.goesOn node .component "View") ∧
    unit.imports = [⟨"other", some "Default", none, [⟨"used", "local", false⟩, ⟨"Kind", "Kind", true⟩], false⟩] ∧
    unit.declarations = ["interface Shown {}", "export type Name = string;"] := by
  have ht : (Script.parse? true unitSource.toList).any (fun tree =>
      decide ((MarkerTable.ofStatements tree.root.parts).aliases.map Prod.fst).Nodup &&
      (tree.root.parts.filterMap classOf?).all (!carriesBoth tree.root.parts ·) &&
      (onlyClass unitSource.toList (unitItems unitSource.toList tree.root.parts)).toOption.any (fun only =>
        only.1.kind == .component && only.2 == "View") &&
      tree.root.parts.filterMap otherImport? ==
        [⟨"other", some "Default", none, [⟨"used", "local", false⟩, ⟨"Kind", "Kind", true⟩], false⟩] &&
      (tree.root.parts.filter (DeclaresType ·)).map (·.span.text unitSource.toList) ==
        ["interface Shown {}", "export type Name = string;"]) = true ∧
      (extractUnit unitSource).toOption.isSome = true := by decide +kernel
  obtain ⟨tree, hp, hh⟩ := (Option.any_eq_true _ _).mp ht.1
  simp only [Bool.and_eq_true, decide_eq_true_eq, beq_iff_eq] at hh
  obtain ⟨⟨⟨⟨hn, hun⟩, ho⟩, hi⟩, hde⟩ := hh
  obtain ⟨unit, hut⟩ := Option.isSome_iff_exists.mp ht.2
  obtain ⟨⟨marked, name⟩, ho, hm⟩ := (Option.any_eq_true _ _).mp ho
  simp only [Bool.and_eq_true, beq_iff_eq] at hm
  have hd := markersDistinct_of_nodup hn
  obtain ⟨hex, -, hc, -, hk, -, -⟩ := unit_shape_verdict unitSource.toList tree.comments tree.root.parts hd
  have he : extractUnit unitSource = .ok unit := by
    cases h : extractUnit unitSource <;> rw [h] at hut <;> cases hut
    rfl
  obtain ⟨hui, hu⟩ := hk unit ((hex unitSource tree rfl hp rfl rfl).symm.trans he)
  refine ⟨tree, unit, marked.node, hp, he, hd, ?_, hui.trans hi, hu.trans hde⟩
  refine (hc ((unmixed_iff hd).mpr hun) _).mp ((verdict_iff hd unitSource.toList).mpr ?_)
  rw [← hm.1, ← hm.2]
  cases h : onlyClass unitSource.toList (unitItems unitSource.toList tree.root.parts) <;> rw [h] at ho <;> cases ho
  rfl

/-- A class with both class markers. -/
def bothMarkers : String :=
  "import { Component, Provider } from \"@tessera/core\";\n" ++
  "@Component() @Provider() class A \x7b render() { return <a/>; } \x7d\n"

/-- Both kinds of class markers occur in the unit, and still it is extracted. -/
theorem both_markers_accepted : ∃ tree, Script.parse? true bothMarkers.toList = some tree ∧
    MarkersDistinct tree.root.parts ∧
    Verdict (DeclaresCarrying tree.root.parts) tree.root.parts (.stops .mixedUnit) ∧
    (extractUnit bothMarkers).toOption.isSome = true := by
  have ht : (Script.parse? true bothMarkers.toList).any (fun tree =>
      decide ((MarkerTable.ofStatements tree.root.parts).aliases.map Prod.fst).Nodup &&
      (tree.root.parts.filterMap classOf?).any (carriesBoth tree.root.parts)) = true ∧
      (extractUnit bothMarkers).toOption.isSome = true := by decide +kernel
  obtain ⟨tree, hpa, hh⟩ := (Option.any_eq_true _ _).mp ht.1
  simp only [Bool.and_eq_true, decide_eq_true_eq, any_eq_true, mem_filterMap] at hh
  obtain ⟨hn, node, ⟨statement, hs, hcl⟩, hb⟩ := hh
  have hdi := markersDistinct_of_nodup hn
  obtain ⟨hc, hp⟩ := (carriesBoth_iff hdi).mp hb
  have hd := declaresClass_iff.mpr hcl
  exact ⟨tree, hpa, hdi, .mixed ⟨statement, hs, node, _, hd, hc⟩
    ⟨⟨statement, hs, node, hd, hc⟩, statement, hs, node, hd, hp⟩, ht.2⟩

end Polyview
