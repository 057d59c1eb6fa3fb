import Polyview.Proofs.Import.History

/-! # Repeated registrations

A later step leaves the bindings of a module as they are, with one exception: a record for types only puts its default
binding in the place of the one before. So repeating a step changes nothing but that default binding
(`apply_of_mem`), and changes nothing at all exactly if the default binding is still the one that the step registers. -/

namespace Polyview

open List

/-! ### Items whose keys are known -/

section

variable {ι κ α : Type} [DecidableEq κ] {key : ι → κ} {summary : κ → List ι → α} {items more : List ι}

theorem eraseDups_append_of_subset {keys others : List κ} (h : others ⊆ keys) :
    (keys ++ others).eraseDups = keys.eraseDups := by
  have hn : others.removeAll keys = [] := by simpa [List.removeAll, filter_eq_nil_iff] using fun a ha => h ha
  rw [eraseDups_append, hn, eraseDups_nil, append_nil]

/-- Items whose keys are known change the groups and add none. -/
theorem grouped_append (change : α → α) (hk : more.map key ⊆ items.map key)
    (hc : ∀ k, summary k (items.filter (fun item => key item = k) ++ more.filter fun item => key item = k) =
      change (summary k (items.filter fun item => key item = k))) :
    grouped key summary (items ++ more) = (grouped key summary items).map change := by
  rw [grouped, grouped, map_append, eraseDups_append_of_subset hk, map_map]
  exact map_congr_left fun k _ => by rw [filter_append, hc, Function.comp_apply]

end

variable {own more : List Registration} {step : Registrar.Step} {steps : List Registrar.Step} {source : String}

/-! ### Registrations that were made before -/

theorem findSome?_or_findSome?_of_subset (f : Registration → Option String) (h : more ⊆ own) :
    (own.findSome? f).or (more.findSome? f) = own.findSome? f := by
  cases hm : more.findSome? f with
  | none => exact Option.or_none
  | some symbol =>
    obtain ⟨r, hr, hs⟩ := exists_of_findSome?_eq_some hm
    have ho : (own.findSome? f).isSome := findSome?_isSome_iff.mpr ⟨r, h hr, by simp [hs]⟩
    exact Option.or_of_isSome ho

theorem all_and_all_of_subset {α : Type} {items others : List α} (p : α → Bool) (h : others ⊆ items) :
    (items.all p && others.all p) = items.all p := by
  cases hi : items.all p with
  | false => rfl
  | true => exact all_eq_true.mpr fun a ha => all_eq_true.mp hi a (h ha)

theorem gatherName_append {bound : String} {names others : List ImportedName} (h : others ⊆ names) :
    ImportedName.gather bound (names ++ others) = .gather bound names := by
  have hh : (names ++ others).head? = names.head? := by
    rw [head?_append]
    cases names with
    | nil => rw [eq_nil_of_subset_nil h]; rfl
    | cons first rest => rfl
  rw [ImportedName.gather, ImportedName.gather, hh, all_append, all_and_all_of_subset _ h]

theorem groupedNames_append {names others : List ImportedName} (h : others ⊆ names) :
    grouped ImportedName.bound ImportedName.gather (names ++ others) =
      grouped ImportedName.bound ImportedName.gather names := by
  rw [grouped_append id (map_subset _ h), map_id]
  exact fun k => gatherName_append (filter_subset _ h)

/-- Registrations that were made before can change the default binding only. -/
theorem gather_append_of_subset (source : String) (h : more ⊆ own) : Import.gather source (own ++ more) =
      { Import.gather source own with defaultName :=
          (more.reverse.findSome? Registration.typeDefault?).or (Import.gather source own).defaultName } := by
  have hd : (Import.gather source own).defaultName.or (more.findSome? Registration.default?) =
      (Import.gather source own).defaultName := by
    rw [Import.gather, Option.or_assoc, findSome?_or_findSome?_of_subset _ h]
  have hw : (Import.gather source own).namespaceName.or (more.findSome? Registration.whole?) =
      (Import.gather source own).namespaceName := findSome?_or_findSome?_of_subset _ h
  have hn : grouped ImportedName.bound ImportedName.gather
      (own.filterMap Registration.name? ++ more.filterMap Registration.name?) = (Import.gather source own).named :=
    groupedNames_append (filterMap_subset _ h)
  have ht : ((Import.gather source own).typeOnly && more.all Registration.typeOnly) =
      (Import.gather source own).typeOnly := all_and_all_of_subset _ h
  rw [gather_append, hd, hw, hn, ht]
  rfl

/-! ### Steps -/

namespace Registrar

/-- The default binding that a step puts in the place of the one that a module has. -/
def Step.replacement? (source : String) : Step → Option String
  | .register record => if record.source = source ∧ record.typeOnly then record.defaultName else none
  | _ => none

theorem typeDefault?_of_mem_registrations {r : Registration} (h : r ∈ step.registrations) :
    r.typeDefault? = none ∨ r.typeDefault? = step.replacement? r.source := by
  cases step with
  | register record =>
    rw [Step.registrations] at h
    split at h
    · rw [mem_singleton.mp h]
      exact .inl rfl
    · simp only [mem_append, Option.mem_toList, Option.map_eq_some_iff, mem_map] at h
      rcases h with (⟨symbol, hs, rfl⟩ | ⟨symbol, -, rfl⟩) | ⟨entry, -, rfl⟩
      · simp [Registration.typeDefault?, Registration.default?, Step.replacement?, hs]
      · simp [Registration.typeDefault?, Registration.default?]
      · simp [Registration.typeDefault?, Registration.default?]
  | _ =>
    rw [mem_singleton.mp h]
    exact .inl rfl

theorem exists_mem_registrations {symbol : String} (h : step.replacement? source = some symbol) :
    ∃ r ∈ step.registrations, r.source = source ∧ r.typeDefault? = some symbol := by
  cases step with
  | register record =>
    rw [Step.replacement?] at h
    split at h
    · next hr =>
      have hb : record.isSideEffect = false := by simp [Import.isSideEffect, h]
      refine ⟨⟨record.source, record.typeOnly, .defaultName symbol⟩, ?_, hr.1, ?_⟩
      · simp [Step.registrations, hb, h]
      · simp [Registration.typeDefault?, Registration.default?, hr.2]
    · cases h
  | _ => cases h

/-- The default bindings that a step replaces are those of its registrations for types only. -/
theorem findSome?_registrations (step : Step) (source : String) :
    (step.registrations.filter fun r => r.source = source).reverse.findSome? Registration.typeDefault? =
      step.replacement? source := by
  cases hf : (step.registrations.filter fun r => r.source = source).reverse.findSome? Registration.typeDefault? with
  | some symbol =>
    obtain ⟨r, hr, hs⟩ := exists_of_findSome?_eq_some hf
    obtain ⟨hr, hsr⟩ := mem_filter.mp (mem_reverse.mp hr)
    rcases typeDefault?_of_mem_registrations hr with hn | hso
    · cases hs.symm.trans hn
    · rw [← hs, hso, of_decide_eq_true hsr]
  | none =>
    cases hre : step.replacement? source with
    | none => rfl
    | some symbol =>
      obtain ⟨r, hr, hsr, hs⟩ := exists_mem_registrations hre
      have hm : r ∈ (step.registrations.filter fun r => r.source = source).reverse := by simp [hr, hsr]
      cases hs.symm.trans (findSome?_eq_none_iff.mp hf r hm)

theorem foldl_apply_step (steps : List Step) (step : Step) :
    (steps.foldl apply {}).apply step = .ofHistory (steps.flatMap Step.registrations ++ step.registrations) := by
  have ha : (steps.foldl apply {}).apply step = (steps ++ [step]).foldl apply {} := by
    rw [foldl_append, foldl_cons, foldl_nil]
  rw [ha, foldl_apply, flatMap_append, flatMap_singleton]

/-- **A repeated step** changes nothing but default bindings, which it replaces if it registers one for types only. -/
theorem apply_of_mem (h : step ∈ steps) :
    ((steps.foldl apply {}).apply step).modules = (steps.foldl apply {}).modules.map fun record =>
      { record with defaultName := (step.replacement? record.source).or record.defaultName } := by
  have hm : step.registrations ⊆ steps.flatMap Step.registrations := fun r hr => mem_flatMap.mpr ⟨step, h, hr⟩
  rw [foldl_apply_step, foldl_apply, ofHistory, ofHistory]
  refine grouped_append _ (map_subset _ hm) fun source => ?_
  rw [gather_append_of_subset source (filter_subset _ hm), findSome?_registrations]
  rfl

/-- A module of which a step replaces the default binding has one, once the step was made. -/
theorem exists_defaultName_of_mem (h : step ∈ steps) {record : Import}
    (hrc : record ∈ (steps.foldl apply {}).modules) {symbol : String}
    (hsy : step.replacement? record.source = some symbol) : ∃ old, record.defaultName = some old := by
  rw [foldl_apply] at hrc
  obtain ⟨source, -, rfl⟩ := mem_modules_ofHistory.mp hrc
  obtain ⟨r, hr, hs, ht⟩ := exists_mem_registrations hsy
  have ho : r ∈ (steps.flatMap Step.registrations).filter fun r => r.source = source :=
    mem_filter.mpr ⟨mem_flatMap.mpr ⟨step, h, hr⟩, decide_eq_true hs⟩
  refine Option.isSome_iff_exists.mp ?_
  rw [Import.gather, Option.isSome_or, findSome?_isSome_iff.mpr ⟨r, mem_reverse.mpr ho, by simp [ht]⟩, Bool.true_or]

/-- A step leaves what a record binds, but for a default binding that it replaces. -/
theorem exists_mem_modules_apply {record : Import} (hr : record ∈ (steps.foldl apply {}).modules) :
    ∃ after ∈ ((steps.foldl apply {}).apply step).modules, after.source = record.source ∧
      (∀ symbol, record.namespaceName = some symbol → after.namespaceName = some symbol) ∧
      ∀ symbol, record.defaultName = some symbol →
        after.defaultName = some ((step.replacement? record.source).getD symbol) := by
  rw [foldl_apply] at hr
  obtain ⟨source, hs, rfl⟩ := mem_modules_ofHistory.mp hr
  have hs : source ∈ (steps.flatMap Step.registrations ++ step.registrations).map Registration.source := by
    rw [map_append]
    exact mem_append_left _ hs
  rw [foldl_apply_step]
  refine ⟨_, mem_modules_ofHistory.mpr ⟨source, hs, rfl⟩, rfl, fun symbol hsy => ?_, fun symbol hsy => ?_⟩
  · rw [filter_append, gather_append, hsy, Option.some_or]
  · rw [filter_append, gather_append, hsy, findSome?_registrations, Option.some_or]
    exact Option.or_some

end Registrar

/-! ### Statements -/

/-- The default binding stands in the first statement of a record, and nothing else depends on it. -/
theorem statements_defaultName (record : Import) : ∃ front back rest, ∀ symbol,
    Import.statements { record with defaultName := some symbol } = (front ++ (symbol ++ back)) :: rest := by
  have hj (symbol : String) (clause : List String) :
      Text.join ", " (symbol :: clause) = symbol ++ Text.join ", " ("" :: clause) := by
    rw [Text.join, Text.join, ← String.intercalate_cons_append, String.append_empty]
  let keyword := if record.typeOnly then "import type " else "import "
  let origin := " from " ++ ("\"" ++ record.source ++ "\"") ++ ";"
  let names := "\x7b " ++ Text.join ", " (record.named.map (ImportedName.render record.typeOnly)) ++ " \x7d"
  let whole := record.namespaceName.toList.map ("* as " ++ ·)
  -- the binding of the whole module joins the clause only where there are no named bindings
  let clause := if record.named.isEmpty then whole else [names]
  let others := if record.named.isEmpty then []
    else whole.map fun binding => keyword ++ (Text.join ", " [binding] ++ origin)
  refine ⟨keyword, Text.join ", " ("" :: clause) ++ origin, others, fun symbol => ?_⟩
  have hb : ({ record with defaultName := some symbol } : Import).isSideEffect = false := rfl
  unfold Import.statements
  simp only [hb]
  cases hn : record.named.isEmpty <;> cases hw : record.namespaceName <;>
    simp [clause, others, whole, names, origin, keyword, hn, hw, hj symbol, String.append_assoc]

theorem flatMap_inj_of_length {α β : Type} {f g : α → List β} {items : List α}
    (hl : ∀ item ∈ items, (f item).length = (g item).length) (h : items.flatMap f = items.flatMap g) :
    ∀ item ∈ items, f item = g item := by
  induction items with
  | nil => exact fun _ hi => by cases hi
  | cons first rest ih =>
    rw [flatMap_cons, flatMap_cons] at h
    obtain ⟨hf, hr⟩ := append_inj h (hl first (.head _))
    exact forall_mem_cons.mpr ⟨hf, ih (fun item hi => hl item (.tail _ hi)) hr⟩

/-- Statements with another default binding are as many, and the same only if the binding is. -/
theorem statements_of_defaultName {record : Import} {old : String} (hold : record.defaultName = some old)
    (new : String) : (Import.statements { record with defaultName := some new }).length = record.statements.length ∧
      (Import.statements { record with defaultName := some new } = record.statements ↔ old = new) := by
  obtain ⟨front, back, rest, hs⟩ := statements_defaultName record
  have hr : record.statements = (front ++ (old ++ back)) :: rest := by rw [← hs old, ← hold]
  rw [hs new, hr]
  exact ⟨rfl, by simp [eq_comm]⟩

namespace Registrar

/-- Every default binding that the step replaces is the one that it registers. -/
def Step.IsSettled (step : Step) (reg : Registrar) : Prop :=
  ∀ record ∈ reg.modules, ∀ symbol, step.replacement? record.source = some symbol → record.defaultName = some symbol

theorem isSettled_iff {reg : Registrar} : step.IsSettled reg ↔
      ∀ record ∈ reg.modules, (step.replacement? record.source).or record.defaultName = record.defaultName := by
  refine forall₂_congr fun record _ => ?_
  cases step.replacement? record.source with
  | none => simp
  | some symbol => simp [eq_comm]

/-- A repeated step leaves the records as they are exactly if it is settled. -/
theorem apply_eq_self_iff (h : step ∈ steps) :
    (steps.foldl apply {}).apply step = steps.foldl apply {} ↔ step.IsSettled (steps.foldl apply {}) := by
  have hm : (steps.foldl apply {}).apply step = steps.foldl apply {} ↔
      ((steps.foldl apply {}).apply step).modules = (steps.foldl apply {}).modules.map id := by
    rw [map_id]
    exact ⟨congrArg modules, congrArg Registrar.mk⟩
  rw [hm, apply_of_mem h, map_inj_left, isSettled_iff]
  refine forall₂_congr fun record _ => ?_
  rcases record
  simp

/-- A repeated step leaves the statements as they are exactly if it is settled. -/
theorem statements_eq_self_iff (h : step ∈ steps) :
    ((steps.foldl apply {}).apply step).statements = (steps.foldl apply {}).statements ↔
      step.IsSettled (steps.foldl apply {}) := by
  refine ⟨fun hsa record hr symbol hs => ?_, fun hse => ?_⟩
  · rw [statements, apply_of_mem h, flatMap_map, statements] at hsa
    have hl : ∀ record ∈ (steps.foldl apply {}).modules, (Import.statements { record with
        defaultName := (step.replacement? record.source).or record.defaultName }).length =
          record.statements.length := by
      intro record hr
      cases hs : step.replacement? record.source with
      | none => rfl
      | some symbol =>
        obtain ⟨old, hold⟩ := exists_defaultName_of_mem h hr hs
        exact (statements_of_defaultName hold symbol).1
    have hst := flatMap_inj_of_length hl hsa record hr
    obtain ⟨old, hold⟩ := exists_defaultName_of_mem h hr hs
    rw [hs, Option.some_or] at hst
    rw [hold, (statements_of_defaultName hold symbol).2.mp hst]
  · rw [(apply_eq_self_iff h).mpr hse]

end Registrar

/-- **Later and repeated registrations:** in a record, the binding of the whole module stays once it is there, and so
does the default binding unless the step replaces it. Repeating a step changes neither records nor statements exactly
if the default binding that it would replace is already the one that it registers. -/
theorem registrations_first_win (steps : List Registrar.Step) (step : Registrar.Step) :
    (∀ record ∈ (steps.foldl Registrar.apply {}).modules,
      ∃ after ∈ ((steps.foldl Registrar.apply {}).apply step).modules, after.source = record.source ∧
        (∀ symbol, record.namespaceName = some symbol → after.namespaceName = some symbol) ∧
        ∀ symbol, record.defaultName = some symbol →
          after.defaultName = some ((step.replacement? record.source).getD symbol)) ∧
      (step ∈ steps → ((steps.foldl Registrar.apply {}).apply step = steps.foldl Registrar.apply {} ↔
          step.IsSettled (steps.foldl Registrar.apply {})) ∧
        (((steps.foldl Registrar.apply {}).apply step).statements = (steps.foldl Registrar.apply {}).statements ↔
          step.IsSettled (steps.foldl Registrar.apply {}))) := by
  exact ⟨fun _ hr => Registrar.exists_mem_modules_apply hr,
    fun h => ⟨Registrar.apply_eq_self_iff h, Registrar.statements_eq_self_iff h⟩⟩

/-- The registration of a default binding for types only. -/
def typeDefault (symbol : String) : Registrar.Step :=
  .register { source := "m", defaultName := some symbol, typeOnly := true }

/-- The last default binding for types only may be repeated. -/
theorem registrations_first_win_repeated : typeDefault "B" ∈ [.defaultImport "A" "m", typeDefault "B", .named "c" "m"] ∧
      ([.defaultImport "A" "m", typeDefault "B", .named "c" "m", typeDefault "B"].foldl Registrar.apply {}) =
        [.defaultImport "A" "m", typeDefault "B", .named "c" "m"].foldl Registrar.apply {} := by
  have hm : typeDefault "B" ∈ [.defaultImport "A" "m", typeDefault "B", .named "c" "m"] := by decide
  refine ⟨hm, ((registrations_first_win _ _).2 hm).1.mpr (Registrar.isSettled_iff.mpr ?_)⟩
  decide

/-- **A default binding is replaced** by a later one for types only, and an earlier step that is repeated replaces that
one again. -/
theorem typeDefault_replaces_default :
    ([.defaultImport "A" "m"].foldl Registrar.apply {}).statements = ["import A from \"m\";"] ∧
      ([.defaultImport "A" "m", typeDefault "B"].foldl Registrar.apply {}).statements = ["import B from \"m\";"] ∧
      ([typeDefault "A", typeDefault "B"].foldl Registrar.apply {}).statements = ["import type B from \"m\";"] ∧
      ([typeDefault "A", typeDefault "B", typeDefault "A"].foldl Registrar.apply {}).statements =
        ["import type A from \"m\";"] := by
  decide

end Polyview
