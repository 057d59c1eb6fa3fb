import Mathlib.Data.List.Forall2
import Polyview.Proofs.Member.Update
import Polyview.Unit.Extraction

/-! # Members by role

A component keeps its members in slots, one for each role. The slot of a member is given by its only marker, or by
its name if it is a method without one. Validation leaves no other members (`placed_of_validateMembers`), so every slot
holds exactly the members that belong there, in the order of the class. -/

namespace Polyview

open List Option

/-! ### Slots -/

/-- The places of members in a component. The render method has none of its own: it becomes the template. -/
inductive Slot
  | prop | state | computed | event | ref | provide | inject | method | onInit | onDestroy | render
deriving DecidableEq, Repr

/-- The slot that a marker denotes. -/
def Marker.slot? : Marker → Option Slot
  | .prop => some .prop
  | .state => some .state
  | .computed => some .computed
  | .event => some .event
  | .ref => some .ref
  | .inject => some .inject
  | .provide => some .provide
  | .component => none
  | .provider => none

/-- The slot that the name of a method denotes. -/
def Slot.ofName (name : String) : Slot :=
  if name = "render" then .render
  else if name = "onInit" then .onInit
  else if name = "onDestroy" then .onDestroy
  else .method

/-- The slot of a member: that of its only marker, or that of its name for a method without markers. -/
def ClassMember.slot? (m : ClassMember) : Option Slot :=
  match m.markers with
  | [] => if m.kind = .method then some (.ofName m.name) else none
  | [marker] => marker.slot?
  | _ => none

/-- A slot that holds one member at most. -/
def Slot.IsSingle (slot : Slot) : Prop := slot = .onInit ∨ slot = .onDestroy

def MemberRole.slot : MemberRole → Slot
  | .prop _ => .prop
  | .state _ => .state
  | .computed _ => .computed
  | .event _ => .event
  | .ref _ => .ref
  | .provide _ => .provide
  | .inject _ => .inject
  | .method _ => .method
  | .onInit _ => .onInit
  | .onDestroy _ => .onDestroy
  | .render => .render

/-- What a component holds in a slot. -/
def Component.entries (c : Component) : Slot → List MemberRole
  | .prop => c.props.map .prop
  | .state => c.state.map .state
  | .computed => c.computed.map .computed
  | .event => c.events.map .event
  | .ref => c.refs.map .ref
  | .provide => c.providers.map .provide
  | .inject => c.injects.map .inject
  | .method => c.methods.map .method
  | .onInit => c.onInit.toList.map .onInit
  | .onDestroy => c.onDestroy.toList.map .onDestroy
  | .render => []

/-- The name, the comments and the text that a role keeps of its member. -/
def MemberRole.origin? : MemberRole → Option (String × List String × String)
  | .prop field => some (field.name, field.comments, field.source)
  | .state field => some (field.name, field.comments, field.source)
  | .computed field => some (field.name, field.comments, field.source)
  | .event field => some (field.name, field.comments, field.source)
  | .ref field => some (field.name, field.comments, field.source)
  | .provide field => some (field.name, field.comments, field.source)
  | .inject field => some (field.name, field.comments, field.source)
  | .method function => some (function.name, function.comments, function.source)
  | .onInit function => some ("onInit", function.comments, function.source)
  | .onDestroy function => some ("onDestroy", function.comments, function.source)
  | .render => none

/-- The role shows the member: what it says of a function is read from the member's own one. -/
structure MemberRole.Presents (role : MemberRole) (m : ClassMember) : Prop where
  origin : role ≠ .render → role.origin? = some (m.name, m.comments, m.source)
  computed : ∀ field, role = .computed field →
    ∃ parts, m.function = some parts ∧ field.returnType = parts.returnType ∧ parts.singleReturn = some field.expression
  method : ∀ method, role = .method method →
    ∃ parts, m.function = some parts ∧ method.params = parts.params ∧ method.returnType = parts.returnType ∧
      method.body = parts.body ∧ method.isAsync = parts.isAsync
  lifecycle : ∀ method, role = .onInit method ∨ role = .onDestroy method →
    ∃ parts, m.function = some parts ∧ method.body = parts.body ∧ method.isAsync = parts.isAsync

variable {m : ClassMember} {members : List ClassMember} {role : MemberRole} {roles : List MemberRole}
  {c : Component} {slot : Slot} {name : String}

/-! ### Validated members -/

/-- What validation leaves of the ways to mark a member. -/
inductive ClassMember.Placed (m : ClassMember) : Prop
  | unmarked (hmarkers : m.markers = []) (hkind : m.kind = .method)
  | computed (hmarkers : m.markers = [.computed]) (hkind : m.kind = .getter)
      (hreturn : (m.function.bind FunctionParts.singleReturn).isSome)
  | field (marker : Marker) (hmarkers : m.markers = [marker]) (hclass : marker.isClassMarker = false)
      (hcomputed : marker ≠ .computed) (hkind : m.kind = .field)

/-- No member of a valid component breaks a rule. -/
theorem check_of_validateMembers (h : validateMembers name members = .ok ()) (hm : m ∈ members) (check : Check)
    (hc : check ∈ memberChecks) : check m = none := by
  unfold validateMembers at h
  split at h
  · cases h
  · next hn =>
    have hf := findSome?_eq_none_iff.mp hn check hc
    exact map_eq_none_iff.mp (findSome?_eq_none_iff.mp hf m hm)

theorem kind_of_checkMemberKind (h : checkMemberKind m = none) :
    m.kind = .field ∨ m.kind = .getter ∨ m.kind = .method := by
  unfold checkMemberKind at h
  split at h
  · cases h
  · cases hk : m.kind <;> simp_all [MemberKind.problem?]

theorem markers_of_checkMarkerCount (h : checkMarkerCount m = none) :
    (∃ marker, m.markers = [marker]) ∨ (m.markers = [] ∧ m.kind ≠ .field ∧ m.kind ≠ .getter) := by
  unfold checkMarkerCount at h
  split at h
  · cases h
  · next hc =>
    split at h
    · cases h
    · next hk =>
      rcases hm : m.markers with _ | ⟨marker, _ | ⟨other, rest⟩⟩
      · exact .inr ⟨rfl, by simp_all⟩
      · exact .inl ⟨marker, rfl⟩
      · rw [hm] at hc
        simp at hc

theorem placed_of_checkMarkerKind {marker : Marker} (h : checkMarkerKind m = none) (hm : m.markers = [marker]) :
    marker.isClassMarker = false ∧ (marker = .computed ∧ m.kind = .getter ∨ marker ≠ .computed ∧ m.kind = .field) := by
  have hmk : m.marker? = some marker := by rw [ClassMember.marker?, hm]; rfl
  unfold checkMarkerKind at h
  rw [hmk] at h
  dsimp only at h
  split at h
  · cases h
  · next hcl =>
    refine ⟨Bool.eq_false_iff.mpr hcl, ?_⟩
    split at h
    · next hc =>
      split at h
      · next hk => exact .inl ⟨eq_of_beq hc, eq_of_beq hk⟩
      · cases h
    · next hc =>
      split at h
      · next hk => exact .inr ⟨by simpa using hc, eq_of_beq hk⟩
      · split at h <;> cases h

/-- **The rules together:** every member of a valid component is an unmarked method, a computed getter or a field with
one marker of another role. -/
theorem placed_of_validateMembers (h : validateMembers name members = .ok ()) (hm : m ∈ members) : m.Placed := by
  have hk := kind_of_checkMemberKind (check_of_validateMembers h hm _ (by simp [memberChecks]))
  rcases markers_of_checkMarkerCount (check_of_validateMembers h hm _ (by simp [memberChecks])) with
    ⟨marker, hms⟩ | ⟨hms, hf, hg⟩
  · have hp := check_of_validateMembers h hm checkMarkerKind (by simp [memberChecks])
    obtain ⟨hcl, ⟨rfl, hk⟩ | ⟨hc, hk⟩⟩ := placed_of_checkMarkerKind hp hms
    · refine .computed hms hk ?_
      have hs := check_of_validateMembers h hm checkComputedShape (by simp [memberChecks])
      have hmk : m.marker? = some .computed := by rw [ClassMember.marker?, hms]; rfl
      unfold checkComputedShape at hs
      by_contra hr
      simp [hmk, hr] at hs
    · exact .field marker hms hcl hc hk
  · exact .unmarked hms (by simp_all)

/-! ### Roles of validated members -/

theorem methodRole_slot (hk : m.kind = .method) : (methodRole m).slot = .ofName m.name := by
  unfold methodRole Slot.ofName renderName
  simp only [hk, bne_self_eq_false, Bool.false_eq_true, if_false, beq_iff_eq]
  split
  · rfl
  · split
    · rfl
    · split <;> rfl

theorem methodRole_presents {parts : FunctionParts} (hk : m.kind = .method) (hp : m.function = some parts) :
    (methodRole m).Presents m := by
  unfold methodRole
  simp only [hk, bne_self_eq_false, Bool.false_eq_true, if_false, beq_iff_eq, hp, getD_some]
  split
  · exact ⟨fun h => (h rfl).elim, nofun, nofun, nofun⟩
  · split
    · next hn =>
      refine ⟨fun _ => by rw [hn]; rfl, nofun, nofun, fun function h => ?_⟩
      rcases h with h | h <;> cases h
      exact ⟨parts, hp, rfl, rfl⟩
    · split
      · next hn =>
        refine ⟨fun _ => by rw [hn]; rfl, nofun, nofun, fun function h => ?_⟩
        rcases h with h | h <;> cases h
        exact ⟨parts, hp, rfl, rfl⟩
      · refine ⟨fun _ => rfl, nofun, fun function h => ?_, nofun⟩
        cases h
        exact ⟨parts, hp, rfl, rfl, rfl, rfl⟩

theorem injectRole_eq_ok (h : injectRole m = .ok role) :
    ∃ token, role = .inject { name := m.name, token, comments := m.comments, source := m.source } := by
  unfold injectRole at h
  split at h
  · next token ht =>
    cases h
    exact ⟨token, rfl⟩
  · cases h

theorem provideRole_eq_ok (h : provideRole m = .ok role) : ∃ token initializer, role = .provide {
      name := m.name, token, typeText := m.typeText, initializer, comments := m.comments, source := m.source } := by
  unfold provideRole at h
  split at h
  · cases h
  · next initializer hi =>
    split at h
    · cases h
    · next token ht =>
      cases h
      exact ⟨token, initializer, rfl⟩

theorem field_of_roleOf {marker : Marker} (hm : m.markers = [marker]) (hc : marker.isClassMarker = false)
    (hco : marker ≠ .computed) (h : roleOf m = .ok role) :
    marker.slot? = some role.slot ∧ role.origin? = some (m.name, m.comments, m.source) := by
  simp only [roleOf, ClassMember.marker?, hm, head?_cons] at h
  cases marker with
  | component => cases hc
  | provider => cases hc
  | computed => exact (hco rfl).elim
  | inject =>
    obtain ⟨token, rfl⟩ := injectRole_eq_ok h
    exact ⟨rfl, rfl⟩
  | provide =>
    obtain ⟨token, initializer, rfl⟩ := provideRole_eq_ok h
    exact ⟨rfl, rfl⟩
  | _ =>
    cases h
    exact ⟨rfl, rfl⟩

/-- The role of a member belongs into the slot of the member. -/
theorem slot?_of_roleOf (hm : m.Placed) (h : roleOf m = .ok role) : m.slot? = some role.slot := by
  cases hm with
  | unmarked hmk hk =>
    have hr : roleOf m = .ok (methodRole m) := by simp [roleOf, ClassMember.marker?, hmk]
    obtain rfl := Except.ok.inj (hr.symm.trans h)
    simp [ClassMember.slot?, hmk, hk, methodRole_slot hk]
  | computed hmk hk hre =>
    simp only [roleOf, ClassMember.marker?, hmk, head?_cons] at h
    cases h
    simp [ClassMember.slot?, hmk, Marker.slot?, MemberRole.slot]
  | field marker hmk hcl hc hk =>
    simp only [ClassMember.slot?, hmk]
    exact (field_of_roleOf hmk hcl hc h).1

theorem presents_of_roleOf (hm : m.Placed) (hf : m.kind = .method ∨ m.kind = .getter → m.function.isSome)
    (h : roleOf m = .ok role) : role.Presents m := by
  cases hm with
  | unmarked hmk hk =>
    have hro : roleOf m = .ok (methodRole m) := by simp [roleOf, ClassMember.marker?, hmk]
    obtain rfl := Except.ok.inj (hro.symm.trans h)
    obtain ⟨parts, hp⟩ := isSome_iff_exists.mp (hf (.inl hk))
    exact methodRole_presents hk hp
  | computed hmk hk hr =>
    obtain ⟨parts, hp⟩ := isSome_iff_exists.mp (hf (.inr hk))
    rw [hp, bind_some] at hr
    obtain ⟨expression, he⟩ := isSome_iff_exists.mp hr
    simp only [roleOf, ClassMember.marker?, hmk, head?_cons, hp, he, getD_some] at h
    cases h
    exact ⟨fun _ => rfl, by rintro _ ⟨⟩; exact ⟨parts, hp, rfl, he⟩, nofun, nofun⟩
  | field marker hmk hcl hc hk =>
    obtain ⟨hs, ho⟩ := field_of_roleOf hmk hcl hc h
    -- markers of fields denote none of the slots that show functions
    refine ⟨fun _ => ho, ?_, ?_, ?_⟩
    · rintro field rfl
      cases marker <;> simp_all [Marker.slot?, MemberRole.slot]
    · rintro method rfl
      cases marker <;> simp_all [Marker.slot?, MemberRole.slot]
    · rintro method (rfl | rfl) <;> cases marker <;> simp_all [Marker.slot?, MemberRole.slot]

/-! ### Filling the slots -/

theorem entries_addRole_of_ne (h : role.slot ≠ slot) : (c.addRole role).entries slot = c.entries slot := by
  cases role <;> cases slot <;> try rfl
  all_goals exact absurd rfl h

theorem entries_addRole_self (hr : role.slot ≠ .render) (hs : role.slot.IsSingle → c.entries role.slot = []) :
    (c.addRole role).entries role.slot = c.entries role.slot ++ [role] := by
  cases role with
  | onInit function => rw [hs (.inl rfl)]; rfl
  | onDestroy function => rw [hs (.inr rfl)]; rfl
  | render => exact (hr rfl).elim
  | _ => exact map_append

/-- Adding roles one by one appends to each slot the roles that belong there. -/
theorem entries_foldl (hr : slot ≠ .render)
    (hsg : slot.IsSingle → (c.entries slot).length + (roles.filter fun role => role.slot = slot).length ≤ 1) :
    (roles.foldl Component.addRole c).entries slot = c.entries slot ++ roles.filter fun role => role.slot = slot := by
  induction roles generalizing c with
  | nil => simp
  | cons role rest ih =>
    rw [foldl_cons]
    by_cases hs : role.slot = slot
    · subst hs
      rw [filter_cons_of_pos (by simp)] at hsg ⊢
      have hse : (c.addRole role).entries role.slot = c.entries role.slot ++ [role] := by
        refine entries_addRole_self hr fun ho => eq_nil_of_length_eq_zero ?_
        have := hsg ho
        rw [length_cons] at this
        omega
      rw [ih, hse, append_assoc, singleton_append]
      intro ho
      have := hsg ho
      rw [hse, length_append]
      simpa [Nat.add_assoc, Nat.add_comm 1] using this
    · rw [filter_cons_of_neg (by simpa using hs)] at hsg ⊢
      rw [ih (by rwa [entries_addRole_of_ne hs]), entries_addRole_of_ne hs]

theorem forall₂_of_mapM (h : members.mapM roleOf = .ok roles) :
    List.Forall₂ (fun m role => roleOf m = .ok role) members roles := by
  induction members generalizing roles with
  | nil =>
    cases h
    exact .nil
  | cons m rest ih =>
    rw [mapM_cons] at h
    obtain ⟨role, hr, h⟩ := bind_eq_ok.mp h
    obtain ⟨others, ho, h⟩ := bind_eq_ok.mp h
    cases h
    exact .cons hr (ih ho)

/-- Only methods of their names are in the slots for one member. -/
theorem method_of_slot? (hs : slot.IsSingle) (h : m.slot? = some slot) :
    m.kind = .method ∧ Slot.ofName m.name = slot := by
  unfold ClassMember.slot? at h
  split at h
  · split at h
    · next hk => exact ⟨hk, Option.some.inj h⟩
    · cases h
  · next marker hm => rcases hs with rfl | rfl <;> cases marker <;> cases h
  · cases h

theorem length_filter_slot_le (hs : slot.IsSingle) : (members.filter fun m => m.slot? = some slot).length ≤
      members.countP fun m => m.kind = .method ∧ Slot.ofName m.name = slot := by
  rw [← countP_eq_length_filter]
  refine countP_mono_left fun m _ h => ?_
  simpa using method_of_slot? hs (by simpa using h)

@[simp]
theorem entries_template (slot : Slot) : Component.entries { c with template, slots } slot = c.entries slot := by
  cases slot <;> rfl

/-- What a component is made of: the roles of its members, and the template that its render method returns. -/
theorem componentOf_eq_ok {source : List Char} {table : MarkerTable} {comments : List Script.Comment}
    {marked : MarkedClass} {items : List UnitItem} (h : componentOf source table comments marked name items = .ok c) :
    ∃ roles bare operand template,
      ((classElements marked.node).map (classMember source table comments)).mapM roleOf = .ok roles ∧
      (∀ slot, Component.entries bare slot = []) ∧ bare.imports = importsOf items ∧
      bare.declarations = declarationsOf items ∧ renderOperand? (classElements marked.node) = some operand ∧
      rootOf source operand = .ok template ∧ checkRefs (roles.foldl Component.addRole bare) template = .ok () ∧
      c = { roles.foldl Component.addRole bare with template, slots := collectSlots template } := by
  unfold componentOf at h
  obtain ⟨options, -, h⟩ := bind_eq_ok.mp h
  obtain ⟨-, -, h⟩ := bind_eq_ok.mp h
  obtain ⟨roles, hr, h⟩ := bind_eq_ok.mp h
  split at h
  · cases h
  · next operand ho =>
    obtain ⟨template, ht, h⟩ := bind_eq_ok.mp h
    obtain ⟨⟨⟩, hre, h⟩ := bind_eq_ok.mp h
    cases h
    exact ⟨roles, _, operand, template, hr, fun slot => by cases slot <;> rfl, rfl, rfl, ho, ht, hre, rfl⟩

theorem ofName_eq_onInit : Slot.ofName name = .onInit ↔ name = "onInit" := by
  unfold Slot.ofName
  split
  · next hn => simp [hn]
  · split
    · next hn => simp [hn]
    · next hn => split <;> simp [hn]

theorem ofName_eq_onDestroy : Slot.ofName name = .onDestroy ↔ name = "onDestroy" := by
  unfold Slot.ofName
  split
  · next hn => simp [hn]
  · split
    · next hn => simp [hn]
    · split
      · next hn => simp [hn]
      · next hn => simp [hn]

theorem exists_slot_of_placed (hm : m.Placed) : ∃ slot, m.slot? = some slot := by
  cases hm with
  | unmarked hmk hk => exact ⟨.ofName m.name, by simp [ClassMember.slot?, hmk, hk]⟩
  | computed hmk hk hr => exact ⟨.computed, by simp [ClassMember.slot?, hmk, Marker.slot?]⟩
  | field marker hmk hc hco hk =>
    simp only [ClassMember.slot?, hmk]
    cases marker with
    | component => cases hc
    | provider => cases hc
    | _ => exact ⟨_, rfl⟩

/-- Members and their roles correspond, slot by slot. -/
theorem forall₂_filter_slot (hpl : ∀ m ∈ members, m.Placed) (hr : members.mapM roleOf = .ok roles) (slot : Slot) :
    List.Forall₂ (fun m role => m ∈ members ∧ roleOf m = .ok role) (members.filter fun m => m.slot? = some slot)
      (roles.filter fun role => role.slot = slot) := by
  have hp := (forall₂_and_left _ _).mpr ⟨fun m (hm : m ∈ members) => hm, forall₂_of_mapM hr⟩
  refine rel_filter (fun m role h => ?_) hp
  simp [slot?_of_roleOf (hpl m h.1) h.2]

/-- The slots of a component that starts empty hold the roles that belong there. -/
theorem entries_of_roles (hp : ∀ m ∈ members, m.Placed)
    (hi : members.countP (fun m => m.kind = .method ∧ m.name = "onInit") ≤ 1)
    (hd : members.countP (fun m => m.kind = .method ∧ m.name = "onDestroy") ≤ 1)
    (hr : members.mapM roleOf = .ok roles) (he : c.entries slot = []) (hrn : slot ≠ .render) :
    (roles.foldl Component.addRole c).entries slot = roles.filter fun role => role.slot = slot := by
  rw [entries_foldl hrn, he, nil_append]
  intro hs
  rw [he, length_nil, Nat.zero_add, ← (forall₂_filter_slot hp hr slot).length_eq]
  refine Nat.le_trans (length_filter_slot_le hs) ?_
  rcases hs with rfl | rfl
  · simpa only [ofName_eq_onInit] using hi
  · simpa only [ofName_eq_onDestroy] using hd

/-- **The members of a valid component** are sorted into its slots by their markers and names, in the order of the
class and without loss. A method without a marker is the only member that is not sorted by a marker. -/
theorem members_partition {bare : Component} (hvalid : validateMembers name members = .ok ())
    (hfunction : ∀ m ∈ members, m.kind = .method ∨ m.kind = .getter → m.function.isSome)
    (hinit : members.countP (fun m => m.kind = .method ∧ m.name = "onInit") ≤ 1)
    (hdestroy : members.countP (fun m => m.kind = .method ∧ m.name = "onDestroy") ≤ 1)
    (hroles : members.mapM roleOf = .ok roles) (hbare : ∀ slot, bare.entries slot = []) :
    (∀ m ∈ members, ∃ slot, m.slot? = some slot) ∧ (∀ slot, slot ≠ .render →
        List.Forall₂ (fun m role => roleOf m = .ok role ∧ role.slot = slot ∧ role.Presents m)
          (members.filter fun m => m.slot? = some slot) ((roles.foldl Component.addRole bare).entries slot)) ∧
      (∀ m ∈ members, m.marker?.bind Marker.slot? = none →
        m.markers = [] ∧ m.kind = .method ∧ roleOf m = .ok (methodRole m)) ∧
      ∀ source table comments marked items c,
        members = (classElements marked.node).map (classMember source table comments) →
        componentOf source table comments marked name items = .ok c →
        ∀ slot, c.entries slot = (roles.foldl Component.addRole bare).entries slot := by
  have hp : ∀ m ∈ members, m.Placed := fun m hm => placed_of_validateMembers hvalid hm
  refine ⟨fun m hm => exists_slot_of_placed (hp m hm), fun slot hr => ?_, fun m hm hmr => ?_, ?_⟩
  · rw [entries_of_roles hp hinit hdestroy hroles (hbare slot) hr]
    have hs : ∀ m ∈ members.filter fun m => m.slot? = some slot, m.slot? = some slot := fun m hm => by
      simpa using (mem_filter.mp hm).2
    refine ((forall₂_and_left _ _).mpr ⟨hs, forall₂_filter_slot hp hroles slot⟩).imp fun m role h => ?_
    obtain ⟨hs, hm, hro⟩ := h
    refine ⟨hro, ?_, presents_of_roleOf (hp m hm) (hfunction m hm) hro⟩
    exact Option.some.inj ((slot?_of_roleOf (hp m hm) hro).symm.trans hs)
  · cases hp m hm with
    | unmarked hma hk => exact ⟨hma, hk, by simp [roleOf, ClassMember.marker?, hma]⟩
    | computed hma hk hre => simp [ClassMember.marker?, hma, Marker.slot?] at hmr
    | field marker hma hcl hco hk => cases marker <;> simp_all [ClassMember.marker?, Marker.slot?, Marker.isClassMarker]
  · rintro source table comments marked items c rfl hc slot
    obtain ⟨roles', bare', operand, template, hr', he, -, -, -, -, -, rfl⟩ := componentOf_eq_ok hc
    obtain rfl := Except.ok.inj (hr'.symm.trans hroles)
    rw [entries_template]
    by_cases hr : slot = .render
    · rw [hr]
      rfl
    · rw [entries_of_roles hp hinit hdestroy hroles (he slot) hr,
        entries_of_roles hp hinit hdestroy hroles (hbare slot) hr]

/-- A component without members. -/
def emptyComponent (name : String) : Component :=
  { name, selector := none, styles := "", template := default, props := [], state := [], computed := [], events := []
    refs := [], providers := [], injects := [], methods := [], onInit := none, onDestroy := none, slots := []
    imports := [], declarations := [] }

def counterMembers : List ClassMember :=
  [ { name := "step", kind := .field, markers := [.prop], isReadonly := true, initializer := some "1" },
    { name := "count", kind := .field, markers := [.state], access := .privateAccess, initializer := some "0" },
    { name := "onInit", kind := .method, function := some { body := "this.reset();", statementCount := 1 } },
    { name := "total", kind := .field, markers := [.state], access := .privateAccess },
    { name := "next", kind := .getter, markers := [.computed],
      function := some { body := "return this.count + this.step;", singleReturn := some "this.count + this.step" } },
    { name := "reset", kind := .method, function := some { body := "this.count = 0;", statementCount := 1 } },
    { name := "render", kind := .method, function := some { singleReturn := some "<p/>", returnsMarkup := true } } ]

/-- The two state variables of the counter are in their slot in the order of the class. -/
theorem members_partition_counter : validateMembers "Counter" counterMembers = .ok () ∧
      ∃ roles, counterMembers.mapM roleOf = .ok roles ∧
        List.Forall₂ (fun m role => roleOf m = .ok role ∧ role.slot = .state ∧ role.Presents m)
          (counterMembers.filter fun m => m.slot? = some .state)
          ((roles.foldl Component.addRole (emptyComponent "Counter")).entries .state) ∧
        (counterMembers.filter fun m => m.slot? = some .state).map ClassMember.name = ["count", "total"] := by
  have hv : validateMembers "Counter" counterMembers = .ok () := by rfl
  refine ⟨hv, _, rfl, ?_, by decide⟩
  refine (members_partition hv (by decide) (by decide) (by decide) rfl fun slot => ?_).2.1 .state (by decide)
  cases slot <;> rfl

end Polyview
