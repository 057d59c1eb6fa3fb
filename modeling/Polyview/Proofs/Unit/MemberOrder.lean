import Mathlib.Data.List.Perm.Basic
import Polyview.Unit.Validation

/-! # The order of members

Validation goes through its rules one by one and reports the first member that breaks the rule at hand. A rule may
report one of two codes, and then the order of the members decides which. So the report is the same for every order
except in three cases: a static member meets one of a kind that is not supported, a member with several markers meets
one without any, or a sound render method meets a malformed one (`report_order_iff`). Only in the last of them the
order decides whether the members are accepted. -/

namespace Polyview

open List

/-! ### The first report of a list -/

section

variable {α β : Type} {f : α → Option β} {items others : List α}

/-- All items of a list that report something report the same. -/
def Unanimous (f : α → Option β) (items : List α) : Prop :=
  ∀ a ∈ items, ∀ b ∈ items, ∀ x y, f a = some x → f b = some y → x = y

theorem Unanimous.of_const (value : β) (h : ∀ a x, f a = some x → x = value) : Unanimous f items :=
  fun a _ b _ x y hx hy => (h a x hx).trans (h b y hy).symm

theorem findSome?_perm (h : Unanimous f items) (hp : others.Perm items) : others.findSome? f = items.findSome? f := by
  cases hi : items.findSome? f with
  | none =>
    rw [findSome?_eq_none_iff] at hi ⊢
    exact fun a ha => hi a (hp.mem_iff.mp ha)
  | some x =>
    obtain ⟨a, ha, hx⟩ := exists_of_findSome?_eq_some hi
    cases ho : others.findSome? f with
    | none =>
      rw [findSome?_eq_none_iff.mp ho a (hp.mem_iff.mpr ha)] at hx
      cases hx
    | some y =>
      obtain ⟨b, hb, hy⟩ := exists_of_findSome?_eq_some ho
      rw [h b (hp.mem_iff.mp hb) a ha y x hy hx]

/-- Of two reports that differ, at most one occurs. -/
theorem unanimous_iff {x y : β} {p q : α → Prop} (hn : x ≠ y)
    (h : ∀ a value, f a = some value ↔ (value = x ∧ p a) ∨ (value = y ∧ q a)) :
    Unanimous f items ↔ ¬ ((∃ a ∈ items, p a) ∧ ∃ a ∈ items, q a) := by
  constructor
  · rintro hu ⟨⟨a, ha, hp⟩, b, hb, hq⟩
    exact hn (hu a ha b hb x y ((h a x).mpr (.inl ⟨rfl, hp⟩)) ((h b y).mpr (.inr ⟨rfl, hq⟩)))
  · intro hr a ha b hb value other hv ho
    rcases (h a value).mp hv with ⟨rfl, ha'⟩ | ⟨rfl, ha'⟩ <;>
      rcases (h b other).mp ho with ⟨rfl, hb'⟩ | ⟨rfl, hb'⟩
    · rfl
    · exact absurd ⟨⟨a, ha, ha'⟩, b, hb, hb'⟩ hr
    · exact absurd ⟨⟨b, hb, hb'⟩, a, ha, ha'⟩ hr
    · rfl

/-- Every report of a list is the first one in some order. -/
theorem exists_perm_findSome? {a : α} {x : β} (ha : a ∈ items) (hx : f a = some x) :
    ∃ others : List α, others.Perm items ∧ others.findSome? f = some x := by
  obtain ⟨before, after, rfl⟩ := append_of_mem ha
  refine ⟨a :: (before ++ after), perm_middle.symm, ?_⟩
  rw [findSome?_cons, hx]

/-- The first report is the same in every order if and only if all reports are the same. -/
theorem findSome?_perm_iff :
    (∀ others : List α, others.Perm items → others.findSome? f = items.findSome? f) ↔ Unanimous f items := by
  refine ⟨fun h a ha b hb x y hx hy => ?_, fun h others hp => findSome?_perm h hp⟩
  obtain ⟨first, hfs, hf⟩ := exists_perm_findSome? ha hx
  obtain ⟨second, hsn, hs⟩ := exists_perm_findSome? hb hy
  have heq : some x = some y := by rw [← hf, ← hs, h first hfs, h second hsn]
  exact Option.some.inj heq

end

variable {component : String} {check : Check} {checks : List Check} {m : ClassMember}
  {members others : List ClassMember}

/-! ### Reports -/

/-- What validation reports: the code of its error, or nothing if it accepts the members. -/
def reported (component : String) (members : List ClassMember) : Option Code :=
  match validateMembers component members with
  | .ok _ => none
  | .error error => some error.code

/-- The code that a rule reports for a member. -/
def Check.code? (check : Check) (m : ClassMember) : Option Code := (check m).map Fault.code

/-- A method that is named like the one that returns the template. -/
def ClassMember.IsRender (m : ClassMember) : Prop := m.kind = .method ∧ m.name = renderName

/-- A method with a body, of which nothing is wrong as a render method. -/
def ClassMember.IsSound (m : ClassMember) : Prop := ∃ parts, m.function = some parts ∧ renderProblem? parts = none

instance : Decidable m.IsRender := inferInstanceAs (Decidable (_ ∧ _))

instance : Decidable m.IsSound :=
  decidable_of_iff (m.function.any fun parts => (renderProblem? parts).isNone) (by
    simp [ClassMember.IsSound, Option.any_eq_true])

/-- What a render method is found to be: nothing of other members, and no code for a sound one. -/
def renderFinding? (m : ClassMember) : Option (Option Code) :=
  if m.IsRender then some (if m.IsSound then none else some .malformedRender) else none

/-- What is reported by some rules, and of the render methods if no member breaks these. -/
def reportOf (checks : List Check) (members : List ClassMember) : Option Code :=
  (checks.findSome? fun check => members.findSome? check.code?).or
    ((members.findSome? renderFinding?).getD (some .missingRender))

theorem code_firstFault? (check : Check) (members : List ClassMember) :
    (firstFault? check members).map Error.code = members.findSome? check.code? := by
  rw [firstFault?, map_findSome?]
  congr 1
  funext m
  simp only [Function.comp_apply, Option.map_map, Check.code?]
  rfl

theorem findSome?_renderFinding? : members.findSome? renderFinding? =
    (members.find? fun m => m.kind == .method && m.name == renderName).map fun m =>
      if m.IsSound then none else some .malformedRender := by
  induction members with
  | nil => rfl
  | cons m rest ih =>
    rw [findSome?_cons, find?_cons, renderFinding?]
    by_cases h : m.IsRender
    · have hr : (m.kind == .method && m.name == renderName) := by
        simpa [ClassMember.IsRender] using h
      simp [hr, h]
    · have hr : (m.kind == .method && m.name == renderName) = false := by
        simpa [ClassMember.IsRender] using h
      simp [hr, h, ih]

theorem reported_of_keeps (h : (memberChecks.findSome? fun check => firstFault? check members) = none) :
    reported component members = (members.findSome? renderFinding?).getD (some .missingRender) := by
  rw [reported, validateMembers, h, checkRender, findSome?_renderFinding?]
  cases hfi : members.find? fun m => m.kind == .method && m.name == renderName with
  | none => rfl
  | some render =>
    cases hf : render.function with
    | none => simp [ClassMember.IsSound, hf, Error.code]
    | some parts =>
      cases hp : renderProblem? parts with
      | none => simp [ClassMember.IsSound, hf, hp]
      | some problem => simp [ClassMember.IsSound, hf, hp, Error.code]

/-- Validation reports by its rules, and then of the render methods. -/
theorem reported_eq (component : String) (members : List ClassMember) :
    reported component members = reportOf memberChecks members := by
  have hc : (memberChecks.findSome? fun check => members.findSome? check.code?) =
      (memberChecks.findSome? fun check => firstFault? check members).map Error.code := by
    rw [map_findSome?]
    congr 1
    funext check
    exact (code_firstFault? check members).symm
  rw [reportOf, hc]
  cases hf : memberChecks.findSome? fun check => firstFault? check members with
  | none =>
    rw [reported_of_keeps hf]
    rfl
  | some error =>
    rw [reported, validateMembers, hf]
    rfl

/-! ### Reports that do not depend on the order -/

/-- Some rules, and then the finding of the render methods, report the same in every order: the first rule that is
broken reports one code, or, if none is, the render methods are all sound or all malformed. -/
def Settled : List Check → List ClassMember → Prop
  | [], members => Unanimous renderFinding? members
  | check :: rest, members => Unanimous check.code? members ∧ ((∀ m ∈ members, check m = none) → Settled rest members)

theorem code?_eq_none_iff : check.code? m = none ↔ check m = none := Option.map_eq_none_iff

theorem reportOf_cons_of_kept (h : ∀ m ∈ members, check m = none) :
    reportOf (check :: checks) members = reportOf checks members := by
  have hn : members.findSome? check.code? = none := findSome?_eq_none_iff.mpr fun m hm => code?_eq_none_iff.mpr (h m hm)
  rw [reportOf, findSome?_cons, hn]
  rfl

theorem reportOf_cons_of_broken (h : ¬ ∀ m ∈ members, check m = none) :
    reportOf (check :: checks) members = members.findSome? check.code? := by
  rw [reportOf, findSome?_cons]
  cases hf : members.findSome? check.code? with
  | none => exact absurd (fun m hm => code?_eq_none_iff.mp (findSome?_eq_none_iff.mp hf m hm)) h
  | some code => rfl

theorem forall_mem_perm {p : ClassMember → Prop} (hp : others.Perm members) :
    (∀ m ∈ others, p m) ↔ ∀ m ∈ members, p m :=
  forall_congr' fun _ => imp_congr_left hp.mem_iff

theorem findSome?_renderFinding?_ne : members.findSome? renderFinding? ≠ some (some .missingRender) := by
  intro h
  obtain ⟨m, -, hm⟩ := exists_of_findSome?_eq_some h
  unfold renderFinding? at hm
  split_ifs at hm <;> cases hm

theorem getD_inj {x y : Option (Option Code)} {code : Code} (hx : x ≠ some (some code)) (hy : y ≠ some (some code)) :
    x.getD (some code) = y.getD (some code) ↔ x = y := by
  cases x <;> cases y <;> simp_all [eq_comm]

/-- Step by step: a rule that no member breaks leaves the report to the next rule, and one that is broken decides. -/
theorem reportOf_perm_iff :
    (∀ others : List ClassMember, others.Perm members → reportOf checks others = reportOf checks members) ↔
      Settled checks members := by
  induction checks with
  | nil =>
    rw [Settled, ← findSome?_perm_iff]
    refine forall₂_congr fun others hp => ?_
    exact getD_inj findSome?_renderFinding?_ne findSome?_renderFinding?_ne
  | cons check rest ih =>
    by_cases h : ∀ m ∈ members, check m = none
    · have hu : Unanimous check.code? members := fun a ha _ _ x _ hx => by
        rw [code?_eq_none_iff.mpr (h a ha)] at hx
        cases hx
      rw [Settled, ← ih, reportOf_cons_of_kept h]
      refine ⟨fun hal => ⟨hu, fun _ others hp => ?_⟩, fun hal others hp => ?_⟩
      · rw [← hal others hp, reportOf_cons_of_kept ((forall_mem_perm hp).mpr h)]
      · rw [reportOf_cons_of_kept ((forall_mem_perm hp).mpr h), hal.2 h others hp]
    · rw [Settled, ← findSome?_perm_iff, and_iff_left fun hk => absurd hk h]
      refine forall₂_congr fun others hp => ?_
      rw [reportOf_cons_of_broken h, reportOf_cons_of_broken fun hk => h ((forall_mem_perm hp).mp hk)]

/-! ### Rules with two codes -/

/-- A member of a kind, or with a name, that components do not have. -/
def ClassMember.IsForeign (m : ClassMember) : Prop :=
  (m.kind ≠ .field ∧ m.kind ≠ .getter ∧ m.kind ≠ .method) ∨ m.hasPrivateName = true ∨ m.hasComputedKey = true

/-- A field or getter without a marker. -/
def ClassMember.IsUnmarked (m : ClassMember) : Prop := m.markers = [] ∧ (m.kind = .field ∨ m.kind = .getter)

/-- One member is static, and another one is not, but foreign. -/
def RivalKinds (members : List ClassMember) : Prop :=
  (∃ m ∈ members, m.isStatic = true) ∧ ∃ m ∈ members, m.isStatic = false ∧ m.IsForeign

/-- All kinds are as they should be, but one member has several markers, and another one lacks its marker. -/
def RivalMarkers (members : List ClassMember) : Prop :=
  (∀ m ∈ members, checkMemberKind m = none) ∧ (∃ m ∈ members, 1 < m.markers.length) ∧ ∃ m ∈ members, m.IsUnmarked

/-- No rule for members is broken, but one render method is sound, and another one is not. -/
def RivalRenders (members : List ClassMember) : Prop :=
  (∀ check ∈ memberChecks, ∀ m ∈ members, check m = none) ∧
    (∃ m ∈ members, m.IsRender ∧ m.IsSound) ∧ ∃ m ∈ members, m.IsRender ∧ ¬ m.IsSound

theorem code?_checkMemberKind (m : ClassMember) (code : Code) : Check.code? checkMemberKind m = some code ↔
    (code = .staticMember ∧ m.isStatic) ∨ (code = .memberKind ∧ m.isStatic = false ∧ m.IsForeign) := by
  unfold Check.code? checkMemberKind ClassMember.IsForeign
  cases m.isStatic <;> cases m.kind <;> cases m.hasPrivateName <;> cases m.hasComputedKey <;>
    simp [MemberKind.problem?, eq_comm]

theorem code?_checkMarkerCount (m : ClassMember) (code : Code) : Check.code? checkMarkerCount m = some code ↔
    (code = .multipleMarkers ∧ 1 < m.markers.length) ∨ (code = .unmarkedMember ∧ m.IsUnmarked) := by
  unfold Check.code? checkMarkerCount ClassMember.IsUnmarked
  rcases m.markers with _ | ⟨first, _ | ⟨second, rest⟩⟩
  · cases m.kind <;> simp [@eq_comm _ code]
  · simp
  · simp [@eq_comm _ code]

theorem renderFinding?_eq_some (m : ClassMember) (finding : Option Code) : renderFinding? m = some finding ↔
    (finding = none ∧ m.IsRender ∧ m.IsSound) ∨ (finding = some .malformedRender ∧ m.IsRender ∧ ¬ m.IsSound) := by
  unfold renderFinding?
  by_cases hr : m.IsRender <;> by_cases hs : m.IsSound <;> simp [hr, hs, eq_comm]

/-- The other rules, in their order, each with its only code. -/
def plainRules : List (Check × Code) :=
  [(checkMarkerKind, .markerKind), (checkProp, .propConstraint), (checkEvent, .eventConstraint),
    (checkNonPublic, .visibility), (checkComputedShape, .computedShape)]

theorem code_of_plainRule {code : Code} {fault : Fault} (h : (check, code) ∈ plainRules)
    (hf : check m = some fault) : fault.code = code := by
  simp only [plainRules, mem_cons, Prod.mk.injEq, not_mem_nil, or_false] at h
  rcases h with ⟨rfl, rfl⟩ | ⟨rfl, rfl⟩ | ⟨rfl, rfl⟩ | ⟨rfl, rfl⟩ | ⟨rfl, rfl⟩
  · unfold checkMarkerKind at hf
    grind
  · unfold checkProp at hf
    grind
  · unfold checkEvent at hf
    grind
  · unfold checkNonPublic at hf
    grind
  · unfold checkComputedShape at hf
    grind

theorem unanimous_of_plainRule {code : Code} (h : (check, code) ∈ plainRules) : Unanimous check.code? members := by
  refine .of_const code fun m other ho => ?_
  obtain ⟨fault, hf, rfl⟩ := Option.map_eq_some_iff.mp ho
  exact code_of_plainRule h hf

/-! ### The order of members -/

/-- Rules with one code leave the order to the render methods. -/
theorem settled_iff_of_unanimous (h : ∀ check ∈ checks, Unanimous check.code? members) : Settled checks members ↔
    ((∀ check ∈ checks, ∀ m ∈ members, check m = none) → Unanimous renderFinding? members) := by
  induction checks with
  | nil => simp [Settled]
  | cons check rest ih =>
    rw [forall_mem_cons] at h ⊢
    rw [Settled, ih h.2, and_iff_right h.1, and_imp]

theorem memberChecks_eq : memberChecks = checkMemberKind :: checkMarkerCount :: plainRules.map Prod.fst := rfl

theorem settled_memberChecks_iff : Settled memberChecks members ↔
    ¬ (RivalKinds members ∨ RivalMarkers members ∨ RivalRenders members) := by
  have hp : ∀ check ∈ plainRules.map Prod.fst, Unanimous check.code? members := by
    intro check hch
    obtain ⟨⟨check, code⟩, hm, rfl⟩ := mem_map.mp hch
    exact unanimous_of_plainRule hm
  rw [memberChecks_eq, Settled, Settled, settled_iff_of_unanimous hp,
    unanimous_iff (by decide) code?_checkMemberKind, unanimous_iff (by decide) code?_checkMarkerCount,
    unanimous_iff (by decide) renderFinding?_eq_some, RivalKinds, RivalMarkers, RivalRenders, memberChecks_eq,
    forall_mem_cons, forall_mem_cons]
  constructor
  · rintro ⟨hki, hre⟩ (hr | ⟨hk, hr⟩ | ⟨⟨hk, hc, hp⟩, hr⟩)
    · exact hki hr
    · exact (hre hk).1 hr
    · exact (hre hk).2 hc hp hr
  · intro h
    refine ⟨fun hr => h (.inl hr), fun hk => ⟨fun hr => h (.inr (.inl ⟨hk, hr⟩)), ?_⟩⟩
    exact fun hc hp hr => h (.inr (.inr ⟨⟨hk, hc, hp⟩, hr⟩))

theorem reportOf_of_kept (h : ∀ check ∈ checks, ∀ m ∈ members, check m = none) :
    reportOf checks members = (members.findSome? renderFinding?).getD (some .missingRender) := by
  induction checks with
  | nil => rfl
  | cons check rest ih =>
    rw [forall_mem_cons] at h
    rw [reportOf_cons_of_kept h.1, ih h.2]

theorem reportOf_ne_none (h : ¬ ∀ check ∈ checks, ∀ m ∈ members, check m = none) : reportOf checks members ≠ none := by
  induction checks with
  | nil => exact absurd (fun check hc => nomatch hc) h
  | cons check rest ih =>
    by_cases hc : ∀ m ∈ members, check m = none
    · rw [reportOf_cons_of_kept hc]
      exact ih fun hr => h (forall_mem_cons.mpr ⟨hc, hr⟩)
    · rw [reportOf_cons_of_broken hc]
      intro hn
      exact hc fun m hm => code?_eq_none_iff.mp (findSome?_eq_none_iff.mp hn m hm)

theorem forall_kept_perm (hp : others.Perm members) :
    (∀ check ∈ checks, ∀ m ∈ others, check m = none) ↔ ∀ check ∈ checks, ∀ m ∈ members, check m = none :=
  forall₂_congr fun _ _ => forall_mem_perm hp

/-- The order decides whether members are accepted only by which render method comes first. -/
theorem accepted_perm_iff : (∀ others : List ClassMember, others.Perm members →
      (reportOf memberChecks others = none ↔ reportOf memberChecks members = none)) ↔ ¬ RivalRenders members := by
  by_cases hk : ∀ check ∈ memberChecks, ∀ m ∈ members, check m = none
  · have hre : ∀ others : List ClassMember, others.Perm members → reportOf memberChecks others =
        (others.findSome? renderFinding?).getD (some .missingRender) := fun others hp =>
      reportOf_of_kept ((forall_kept_perm hp).mpr hk)
    constructor
    · rintro h ⟨-, ⟨sound, hso, hf⟩, malformed, hm, hf'⟩
      obtain ⟨first, hfs, hfi⟩ := exists_perm_findSome? hso ((renderFinding?_eq_some sound none).mpr (.inl ⟨rfl, hf⟩))
      obtain ⟨second, hs, hs'⟩ := exists_perm_findSome? hm ((renderFinding?_eq_some malformed _).mpr (.inr ⟨rfl, hf'⟩))
      have ha := (h first hfs).mp (by rw [hre first hfs, hfi]; rfl)
      have hr := (h second hs).mpr ha
      rw [hre second hs, hs'] at hr
      cases hr
    · intro h others hp
      have hu : Unanimous renderFinding? members :=
        (unanimous_iff (by decide) renderFinding?_eq_some).mpr fun hri => h ⟨hk, hri⟩
      rw [hre others hp, hre members (.refl _), findSome?_perm hu hp]
  · have hr : ∀ others : List ClassMember, others.Perm members → reportOf memberChecks others ≠ none :=
      fun others hp => reportOf_ne_none fun h => hk ((forall_kept_perm hp).mp h)
    refine iff_of_true (fun others hp => ?_) fun h => hk h.1
    exact iff_of_false (hr others hp) (hr members (.refl _))

/-- **What validation reports does not depend on the order of the members**, unless a static member meets a foreign
one, a member with several markers meets one without its marker, or a sound render method meets one that is not. Whether
the members are accepted depends on their order in the last case only. -/
theorem report_order_iff (component : String) (members : List ClassMember) :
    ((∀ others : List ClassMember, others.Perm members → reported component others = reported component members) ↔
      ¬ (RivalKinds members ∨ RivalMarkers members ∨ RivalRenders members)) ∧
    ((∀ others : List ClassMember, others.Perm members →
        (reported component others = none ↔ reported component members = none)) ↔ ¬ RivalRenders members) := by
  simp only [reported_eq]
  exact ⟨reportOf_perm_iff.trans settled_memberChecks_iff, accepted_perm_iff⟩

/-- Of a constructor and a static field, the one that comes first is reported. -/
theorem report_depends_on_order : ∃ members others : List ClassMember, others.Perm members ∧
    reported "Note" members = some .memberKind ∧ reported "Note" others = some .staticMember :=
  ⟨[{ name := "constructor", kind := .constructor }, { name := "count", kind := .field, isStatic := true }],
    [{ name := "count", kind := .field, isStatic := true }, { name := "constructor", kind := .constructor }],
    .swap .., by decide, by decide⟩

end Polyview
