import Mathlib.Data.List.Induction
import Polyview.Import.Registrar

/-! # The history of a registrar

A step of the registrar is one or more registrations, each of which adds one binding to one module. The records after
a run are given by the registrations alone (`foldl_apply`): they are grouped by module, and the named bindings of a
module by the name that they bind, in both cases in the order in which the groups come first. -/

namespace Polyview

open List

/-! ### Groups of items with the same key -/

section

variable {ι κ α : Type} [DecidableEq κ]

/-- The items by their keys, in the order in which the keys come first. A group is given by its summary. -/
def grouped (key : ι → κ) (summary : κ → List ι → α) (items : List ι) : List α :=
  (items.map key).eraseDups.map fun k => summary k (items.filter fun item => key item = k)

/-- Changes the first item that passes a test, or adds an item if there is none. -/
def upsert (test : α → Bool) (change : α → α) (fresh : α) : List α → List α
  | [] => [fresh]
  | known :: rest => if test known then change known :: rest else known :: upsert test change fresh rest

theorem eraseDups_concat (keys : List κ) (k : κ) :
    (keys ++ [k]).eraseDups = if k ∈ keys then keys.eraseDups else keys.eraseDups ++ [k] := by
  rw [eraseDups_append]
  by_cases hk : k ∈ keys
  · simp [hk, List.removeAll]
  · simp [hk, List.removeAll, eraseDups_cons]

theorem nodup_eraseDups (keys : List κ) : keys.eraseDups.Nodup := by
  induction keys using List.reverseRecOn with
  | nil => exact nodup_nil
  | append_singleton keys k ih =>
    rw [eraseDups_concat]
    split
    · exact ih
    · next hk =>
      refine nodup_append.mpr ⟨ih, pairwise_singleton _ k, fun a ha b hb hab => hk ?_⟩
      rw [← mem_singleton.mp hb, ← hab]
      exact mem_eraseDups.mp ha

variable {name : α → κ} {group : κ → α} {change : α → α} {fresh : α} {k : κ} {keys : List κ}

theorem upsert_map_of_notMem (hn : ∀ k, name (group k) = k) (hk : k ∉ keys) :
    upsert (fun a => name a == k) change fresh (keys.map group) = keys.map group ++ [fresh] := by
  induction keys with
  | nil => rfl
  | cons first rest ih =>
    rw [mem_cons, not_or] at hk
    have hf : (name (group first) == k) = false := by simpa [hn] using fun h => hk.1 h.symm
    rw [map_cons, upsert, hf, ih hk.2]
    rfl

theorem upsert_map_of_mem (hna : ∀ k, name (group k) = k) (hn : keys.Nodup) (hk : k ∈ keys) :
    upsert (fun a => name a == k) change fresh (keys.map group) =
      keys.map fun other => if other = k then change (group other) else group other := by
  induction keys with
  | nil => cases hk
  | cons first rest ih =>
    obtain ⟨hf, hn⟩ := nodup_cons.mp hn
    rw [map_cons, map_cons, upsert, hna]
    by_cases heq : first = k
    · -- no other key is the one that is changed
      have hr : ∀ other ∈ rest, other ≠ k := fun other ho h => hf (heq.trans h.symm ▸ ho)
      simp only [heq, beq_self_eq_true, if_true]
      congr 1
      exact map_congr_left fun other ho => (if_neg (hr other ho)).symm
    · have hm : k ∈ rest := (mem_cons.mp hk).resolve_left fun h => heq h.symm
      simp only [heq, beq_iff_eq, if_false, ih hn hm]

variable {key : ι → κ} {summary : κ → List ι → α} {items : List ι} {item : ι}

theorem map_grouped (hn : ∀ k own, name (summary k own) = k) :
    (grouped key summary items).map name = (items.map key).eraseDups := by
  simp [grouped, Function.comp_def, hn]

theorem filter_concat_self : (items ++ [item]).filter (fun other => key other = key item) =
      items.filter (fun other => key other = key item) ++ [item] := by
  simp [filter_append]

theorem filter_concat_of_ne (hk : k ≠ key item) :
    (items ++ [item]).filter (fun other => key other = k) = items.filter fun other => key other = k := by
  simp [filter_append, Ne.symm hk]

/-- **Groups grow one item at a time:** a further item changes its group, or starts a new one. -/
theorem upsert_grouped (hn : ∀ k own, name (summary k own) = k) (hfr : fresh = summary (key item) [item])
    (hc : ∀ own, own ≠ [] → change (summary (key item) own) = summary (key item) (own ++ [item])) :
    upsert (fun a => name a == key item) change fresh (grouped key summary items) =
      grouped key summary (items ++ [item]) := by
  rw [grouped, grouped, map_append, map_singleton, eraseDups_concat]
  split
  · next hm =>
    rw [upsert_map_of_mem (fun k => hn k _) (nodup_eraseDups _) (mem_eraseDups.mpr hm)]
    refine map_congr_left fun k _ => ?_
    split
    · next hk =>
      obtain ⟨first, hf, hke⟩ := mem_map.mp hm
      rw [hk, filter_concat_self, hc]
      exact ne_nil_of_mem (mem_filter.mpr ⟨hf, by simpa using hke⟩)
    · next hk => rw [filter_concat_of_ne hk]
  · next hm =>
    rw [upsert_map_of_notMem (fun k => hn k _) (mt mem_eraseDups.mp hm), map_append, map_singleton]
    congr 1
    · refine map_congr_left fun k hk => ?_
      have hne : k ≠ key item := fun h => hm (h ▸ mem_eraseDups.mp hk)
      rw [filter_concat_of_ne hne]
    · have hno : items.filter (fun other => key other = key item) = [] :=
        filter_eq_nil_iff.mpr fun other ho h => hm (mem_map.mpr ⟨other, ho, by simpa using h⟩)
      rw [hfr, filter_concat_self, hno, nil_append]

end

/-! ### Registrations -/

/-- What a registration binds. -/
inductive Binding
  | nothing
  | defaultName (symbol : String)
  | wholeModule (symbol : String)
  | named (imported bound : String)
deriving DecidableEq, Repr

/-- A registration: a binding from a module, for types only or not. -/
structure Registration where
  source : String
  typeOnly : Bool
  binding : Binding
deriving DecidableEq, Repr

namespace Registration

/-- The named binding of a registration. -/
def name? (r : Registration) : Option ImportedName :=
  match r.binding with
  | .named imported bound => some ⟨imported, bound, r.typeOnly⟩
  | _ => none

/-- The default binding of a registration. -/
def default? (r : Registration) : Option String :=
  match r.binding with
  | .defaultName symbol => some symbol
  | _ => none

/-- The default binding of a registration for types only. -/
def typeDefault? (r : Registration) : Option String := if r.typeOnly then r.default? else none

/-- The binding of the whole module of a registration. -/
def whole? (r : Registration) : Option String :=
  match r.binding with
  | .wholeModule symbol => some symbol
  | _ => none

/-- Adds the binding to a record. A default binding for types only replaces the one before. -/
def add (r : Registration) (record : Import) : Import :=
  match r.binding with
  | .nothing => record
  | .defaultName symbol =>
    { record with defaultName := if r.typeOnly then some symbol else record.defaultName <|> some symbol }
  | .wholeModule symbol => { record with namespaceName := record.namespaceName <|> some symbol }
  | .named imported bound => { record with named := addNamed ⟨imported, bound, r.typeOnly⟩ record.named }

end Registration

namespace Registrar

/-- The registrations that a step consists of. A record that binds nothing is registered for its effects, so not for
types only. -/
def Step.registrations : Step → List Registration
  | .named symbol source => [⟨source, false, .named symbol symbol⟩]
  | .namedAs imported bound source => [⟨source, false, .named imported bound⟩]
  | .typeNamed symbol source => [⟨source, true, .named symbol symbol⟩]
  | .defaultImport symbol source => [⟨source, false, .defaultName symbol⟩]
  | .wholeModule symbol source => [⟨source, false, .wholeModule symbol⟩]
  | .sideEffect source => [⟨source, false, .nothing⟩]
  | .register record =>
    if record.isSideEffect then [⟨record.source, false, .nothing⟩]
    else
      (record.defaultName.map fun symbol => ⟨record.source, record.typeOnly, .defaultName symbol⟩).toList ++
        (record.namespaceName.map fun symbol => ⟨record.source, record.typeOnly, .wholeModule symbol⟩).toList ++
        record.named.map fun entry =>
          ⟨record.source, record.typeOnly || entry.typeOnly, .named entry.imported entry.bound⟩

/-- Carries out one registration. -/
def enter (reg : Registrar) (r : Registration) : Registrar := reg.update r.source r.typeOnly r.add

theorem registerDefault_eq (reg : Registrar) (record : Import) :
    reg.registerDefault record = (record.defaultName.map fun symbol =>
      ⟨record.source, record.typeOnly, .defaultName symbol⟩).toList.foldl enter reg := by
  unfold registerDefault
  rcases record.defaultName with _ | symbol
  · rfl
  · cases record.typeOnly <;> rfl

theorem registerWhole_eq (reg : Registrar) (record : Import) :
    reg.registerWhole record = (record.namespaceName.map fun symbol =>
      ⟨record.source, record.typeOnly, .wholeModule symbol⟩).toList.foldl enter reg := by
  unfold registerWhole
  rcases record.namespaceName with _ | symbol <;> rfl

/-- A step carries out its registrations one after the other. -/
theorem apply_eq (reg : Registrar) (step : Step) : reg.apply step = step.registrations.foldl enter reg := by
  cases step with
  | register record =>
    rw [apply, register, Step.registrations]
    split
    · rfl
    · rw [foldl_append, foldl_append, ← registerDefault_eq, ← registerWhole_eq, foldl_map]
      rfl
  | _ => rfl

theorem foldl_apply_eq (reg : Registrar) (steps : List Step) :
    steps.foldl apply reg = (steps.flatMap Step.registrations).foldl enter reg := by
  rw [foldl_flatMap]
  congr
  funext reg step
  exact apply_eq reg step

end Registrar

/-! ### Records by their history -/

/-- The named binding that registrations of one bound name make together. -/
def ImportedName.gather (bound : String) (own : List ImportedName) : ImportedName :=
  ⟨(own.head?.map ImportedName.imported).getD bound, bound, own.all ImportedName.typeOnly⟩

/-- The record that the registrations of one module make together. The first binding of the whole module counts, and so
does the first default binding, unless there is one for types only: then the last of these counts. -/
def Import.gather (source : String) (own : List Registration) : Import where
  source := source
  defaultName := (own.reverse.findSome? Registration.typeDefault?).or (own.findSome? Registration.default?)
  namespaceName := own.findSome? Registration.whole?
  named := grouped ImportedName.bound ImportedName.gather (own.filterMap Registration.name?)
  typeOnly := own.all Registration.typeOnly

/-- The registrar with the records that the given registrations make. -/
def Registrar.ofHistory (made : List Registration) : Registrar := ⟨grouped Registration.source Import.gather made⟩

theorem addNamed_eq_upsert (entry : ImportedName) (names : List ImportedName) : addNamed entry names =
      upsert (fun known => known.bound == entry.bound)
        (fun known => { known with typeOnly := known.typeOnly && entry.typeOnly }) entry names := by
  induction names with
  | nil => rfl
  | cons known rest ih => rw [addNamed, upsert, ih]

theorem updateModule_eq_upsert (source : String) (typeOnly : Bool) (f : Import → Import) (modules : List Import) :
    updateModule source typeOnly f modules = upsert (fun record => record.source == source)
        (fun record => f { record with typeOnly := record.typeOnly && typeOnly }) (f { source, typeOnly }) modules := by
  induction modules with
  | nil => rfl
  | cons record rest ih => rw [updateModule, upsert, ih]

/-- A further named binding joins those that were gathered. -/
theorem addNamed_grouped (entry : ImportedName) (names : List ImportedName) :
    addNamed entry (grouped ImportedName.bound ImportedName.gather names) =
      grouped ImportedName.bound ImportedName.gather (names ++ [entry]) := by
  rw [addNamed_eq_upsert]
  refine upsert_grouped (fun _ _ => rfl) ?_ fun own ho => ?_
  · simp [ImportedName.gather]
  · obtain ⟨first, rest, rfl⟩ := exists_cons_of_ne_nil ho
    simp [ImportedName.gather, Bool.and_assoc]

theorem gather_append (source : String) (own more : List Registration) : Import.gather source (own ++ more) = {
        source
        defaultName := (more.reverse.findSome? Registration.typeDefault?).or
          ((Import.gather source own).defaultName.or (more.findSome? Registration.default?))
        namespaceName := (Import.gather source own).namespaceName.or (more.findSome? Registration.whole?)
        named := grouped ImportedName.bound ImportedName.gather
          (own.filterMap Registration.name? ++ more.filterMap Registration.name?)
        typeOnly := (Import.gather source own).typeOnly && more.all Registration.typeOnly } := by
  simp only [Import.gather, reverse_append, findSome?_append, filterMap_append, all_append, Option.or_assoc]

/-- A further registration joins those that were gathered. -/
theorem add_gather (source : String) (own : List Registration) (r : Registration) :
    r.add { Import.gather source own with typeOnly := (Import.gather source own).typeOnly && r.typeOnly } =
      Import.gather source (own ++ [r]) := by
  rw [gather_append]
  rcases r with ⟨home, typeOnly, binding⟩
  cases binding with
  | named imported bound =>
    simp [Registration.add, Registration.typeDefault?, Registration.default?, Registration.whole?, Registration.name?,
      Import.gather, addNamed_grouped]
  | _ =>
    cases typeOnly <;>
      simp [Registration.add, Registration.typeDefault?, Registration.default?, Registration.whole?,
        Registration.name?, Import.gather, filterMap_cons]

theorem foldl_enter (made : List Registration) : made.foldl Registrar.enter {} = .ofHistory made := by
  induction made using List.reverseRecOn with
  | nil => rfl
  | append_singleton made r ih =>
    rw [foldl_append, ih, foldl_cons, foldl_nil, Registrar.enter, Registrar.update, Registrar.ofHistory,
      Registrar.ofHistory, updateModule_eq_upsert]
    congr 1
    refine upsert_grouped (fun _ _ => rfl) ?_ fun own _ => add_gather r.source own r
    exact add_gather r.source [] r

/-- **The records after a run** are those that its registrations make. -/
theorem foldl_apply (steps : List Registrar.Step) :
    steps.foldl Registrar.apply {} = .ofHistory (steps.flatMap Registrar.Step.registrations) := by
  rw [Registrar.foldl_apply_eq, foldl_enter]

theorem mem_modules_ofHistory {made : List Registration} {record : Import} :
    record ∈ (Registrar.ofHistory made).modules ↔
      ∃ source ∈ made.map Registration.source, .gather source (made.filter fun r => r.source = source) = record := by
  simp only [Registrar.ofHistory, grouped, mem_map, mem_eraseDups]

/-! ### What the records show -/

/-- A record shows the registrations of its module: its names in the order of first registration, each with the
name in the module that came first, and for types only as long as all registrations are. -/
structure Import.Shows (record : Import) (own : List Registration) : Prop where
  distinct : (record.named.map ImportedName.bound).Nodup
  order : record.named.map ImportedName.bound = ((own.filterMap Registration.name?).map ImportedName.bound).eraseDups
  present : ∀ entry ∈ own.filterMap Registration.name?, ∃ known ∈ record.named, known.bound = entry.bound ∧
    ∃ first, (own.filterMap Registration.name?).find? (fun other => other.bound = entry.bound) = some first ∧
      known.imported = first.imported
  nameTypeOnly : ∀ known ∈ record.named,
    (known.typeOnly ↔ ∀ entry ∈ own.filterMap Registration.name?, entry.bound = known.bound → entry.typeOnly)
  typeOnly : record.typeOnly ↔ ∀ r ∈ own, r.typeOnly
  types : record.typeOnly → ∀ known ∈ record.named, known.typeOnly

section

variable {names : List ImportedName} {known entry : ImportedName}

theorem eq_gather_of_mem (h : known ∈ grouped ImportedName.bound ImportedName.gather names) :
    known = .gather known.bound (names.filter fun entry => entry.bound = known.bound) := by
  obtain ⟨bound, -, rfl⟩ := mem_map.mp h
  rfl

theorem typeOnly_of_mem_grouped (h : known ∈ grouped ImportedName.bound ImportedName.gather names) :
    known.typeOnly ↔ ∀ entry ∈ names, entry.bound = known.bound → entry.typeOnly := by
  rw [congrArg ImportedName.typeOnly (eq_gather_of_mem h)]
  simp only [ImportedName.gather, all_eq_true, mem_filter, decide_eq_true_eq, and_imp]

theorem exists_mem_grouped (h : entry ∈ names) :
    ∃ known ∈ grouped ImportedName.bound ImportedName.gather names, known.bound = entry.bound ∧
      ∃ first, names.find? (fun other => other.bound = entry.bound) = some first ∧ known.imported = first.imported := by
  have hk : entry.bound ∈ (names.map ImportedName.bound).eraseDups := mem_eraseDups.mpr (mem_map_of_mem h)
  obtain ⟨first, hf⟩ : ∃ first, names.find? (fun other => other.bound = entry.bound) = some first :=
    Option.isSome_iff_exists.mp (find?_isSome.mpr ⟨entry, h, by simp⟩)
  refine ⟨_, mem_map.mpr ⟨entry.bound, hk, rfl⟩, rfl, first, hf, ?_⟩
  simp [ImportedName.gather, head?_filter, hf]

end

theorem exists_mem_of_mem_names {own : List Registration} {entry : ImportedName}
    (h : entry ∈ own.filterMap Registration.name?) : ∃ r ∈ own, r.typeOnly = entry.typeOnly := by
  obtain ⟨r, hr, hn⟩ := mem_filterMap.mp h
  refine ⟨r, hr, ?_⟩
  unfold Registration.name? at hn
  split at hn
  · cases hn
    rfl
  · cases hn

theorem gather_shows (source : String) (own : List Registration) : (Import.gather source own).Shows own where
  distinct := by
    rw [Import.gather, map_grouped fun _ _ => rfl]
    exact nodup_eraseDups _
  order := by rw [Import.gather, map_grouped fun _ _ => rfl]
  present _ he := exists_mem_grouped he
  nameTypeOnly _ hk := typeOnly_of_mem_grouped hk
  typeOnly := by simp [Import.gather]
  types ht known hk := by
    refine (typeOnly_of_mem_grouped hk).mpr fun entry he _ => ?_
    obtain ⟨r, hr, hty⟩ := exists_mem_of_mem_names he
    rw [← hty]
    exact all_eq_true.mp ht r hr

/-- **The registrar over whole runs:** there is one record for each module, in the order of first registration, and it
shows the registrations of the module. -/
theorem registrar_shows_registrations (steps : List Registrar.Step) :
    ((steps.foldl Registrar.apply {}).modules.map Import.source).Nodup ∧
      (steps.foldl Registrar.apply {}).modules.map Import.source =
        ((steps.flatMap Registrar.Step.registrations).map Registration.source).eraseDups ∧
      ∀ record ∈ (steps.foldl Registrar.apply {}).modules,
        record.Shows ((steps.flatMap Registrar.Step.registrations).filter fun r => r.source = record.source) := by
  rw [foldl_apply]
  have hs : (Registrar.ofHistory (steps.flatMap Registrar.Step.registrations)).modules.map Import.source =
      ((steps.flatMap Registrar.Step.registrations).map Registration.source).eraseDups := map_grouped fun _ _ => rfl
  refine ⟨hs ▸ nodup_eraseDups _, hs, fun record hr => ?_⟩
  obtain ⟨source, -, rfl⟩ := mem_modules_ofHistory.mp hr
  exact gather_shows source _

/-- Types and values of one module, registered in turns with another module. -/
def mixedSteps : List Registrar.Step :=
  [.typeNamed "Ref" "vue", .defaultImport "Store" "./store",
    .register { source := "vue", named := [⟨"ref", "ref", false⟩, ⟨"ShallowRef", "Ref", true⟩] }]

/-- The type that came first keeps its name in the module and stays a type beside the value. -/
theorem registrar_shows_mixed : ∃ record ∈ (mixedSteps.foldl Registrar.apply {}).modules,
      record.named = [⟨"Ref", "Ref", true⟩, ⟨"ref", "ref", false⟩] ∧ record.typeOnly = false ∧
        record.Shows ((mixedSteps.flatMap Registrar.Step.registrations).filter fun r => r.source = record.source) := by
  have hr : { source := "vue", named := [⟨"Ref", "Ref", true⟩, ⟨"ref", "ref", false⟩] } ∈
      (mixedSteps.foldl Registrar.apply {}).modules := by decide
  exact ⟨_, hr, rfl, rfl, (registrar_shows_registrations mixedSteps).2.2 _ hr⟩

end Polyview
