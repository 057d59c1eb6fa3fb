import Polyview.Proofs.Member.Reads

/-! # The order of dependencies

The scan for reads goes over a tree in the order in which it is written: a node stands before its parts, and parts
stand from left to right. This is the lexicographic order of places, and dependencies are listed in the order of the
places at which they are first read (`exists_places`).

Where the scan goes depends on the members with setters only (`visits_congr`), and what it takes on the names that
are asked for. So what is found for fewer members is what is found for more, less the others (`reads_eq_filter`). -/

namespace Polyview

open List Script

variable {found names others : List String}

namespace ReactiveScope

variable {scope wider : ReactiveScope} {isBound : String → Bool} {root : Node} {name : String}

/-! ### Fewer members -/

/-- A scope asks for fewer members than another, and otherwise for the same. No member has the name of a variable that
is asked for. -/
structure Narrows (scope wider : ReactiveScope) : Prop where
  members : ∀ name ∈ scope.members, name ∈ wider.members
  stateful : ∀ name, name ∈ scope.stateful ↔ name ∈ wider.stateful
  free : ∀ name, name ∈ scope.free ↔ name ∈ wider.free
  apart : ∀ name ∈ wider.members, name ∉ wider.free

def asks (scope : ReactiveScope) (name : String) : Bool := scope.members.contains name || scope.free.contains name

theorem contains_congr (h : ∀ name, name ∈ names ↔ name ∈ others) : names.contains = others.contains := by
  funext name
  rw [Bool.eq_iff_iff, contains_iff_mem, contains_iff_mem, h]

/-- Where the scan goes depends on the members with setters only. -/
theorem visits_congr (h : ∀ name, name ∈ scope.stateful ↔ name ∈ wider.stateful) (node : Node) :
    scope.visits node = wider.visits node := by
  have hc (node : Node) : scope.changes node = wider.changes node := by
    unfold changes
    rw [contains_congr h]
  have hs (callee : Node) : scope.skipsCallee callee = wider.skipsCallee callee := by
    unfold skipsCallee
    rw [contains_congr h]
  unfold visits
  simp only [hc, hs]

theorem ownReads_eq_filter (h : Narrows scope wider) (node : Node) :
    scope.ownReads isBound node = (wider.ownReads isBound node).filter scope.asks := by
  unfold ownReads
  split
  · next label _ _ =>
    rw [contains_congr h.free]
    split
    · next hf =>
      have ha : scope.asks label := by
        rw [asks, contains_congr h.free, (Bool.and_eq_true_iff.mp hf).1, Bool.or_true]
      simp [ha]
    · rfl
  · next label _ _ object =>
    cases ht : isThis object with
    | false => simp
    | true =>
      -- A member of the wider scope is no variable, so it is asked for as a member if at all.
      by_cases hw : label ∈ wider.members
      · have hf : label ∉ scope.free := fun hm => h.apart label hw ((h.free label).mp hm)
        by_cases hs : label ∈ scope.members <;> simp [asks, hw, hs, hf]
      · have hs : label ∉ scope.members := fun hm => hw (h.members label hm)
        simp [hw, hs]
  · rfl

/-- **What is read with fewer members** is what is read with more, less the others. -/
theorem reads_eq_filter (h : Narrows scope wider) (node : Node) :
    reads scope isBound node = (reads wider isBound node).filter scope.asks := by
  induction node using Node.strongInduction with
  | h node below =>
    rw [@reads_eq_visits scope, @reads_eq_visits wider, filter_append, ownReads_eq_filter h,
      visits_congr h.stateful, filter_flatMap]
    congr 1
    refine flatMap_congr fun next hn => ?_
    unfold readsAt
    cases hp : node.at? next with
    | none => rfl
    | some part =>
      obtain ⟨i, place, rfl⟩ := exists_cons_of_ne_nil (ne_nil_of_mem_visits hn)
      exact below i place part hp

/-! ### First reads -/

variable (scope isBound root) in
/-- The place at which a name is first read. -/
structure FirstRead (name : String) (place : List ℕ) : Prop where
  read : scope.IsReadAt isBound root name place
  first : ∀ other, scope.IsReadAt isBound root name other → place = other ∨ Precedes place other

end ReactiveScope

/-! ### First occurrences -/

/-- The first occurrences in a list with places, with the places at which they are. -/
theorem exists_firstOccurrences {found : List (String × List ℕ)} (seen : List String)
    (h : found.Pairwise fun read later => ReactiveScope.Precedes read.2 later.2) :
    ∃ firsts : List (String × List ℕ), firsts.map Prod.fst = firstOccurrences seen (found.map Prod.fst) ∧
      firsts.Sublist found ∧
      ∀ read ∈ firsts, ∀ other, (read.1, other) ∈ found → read.2 = other ∨ ReactiveScope.Precedes read.2 other := by
  induction found generalizing seen with
  | nil => exact ⟨[], rfl, .slnil, by simp⟩
  | cons head found ih =>
    obtain ⟨hh, hfd⟩ := pairwise_cons.mp h
    -- The names of the remaining firsts are not the name of the head, if the head has been seen.
    have hl {read other} {before : List String} {firsts : List (String × List ℕ)}
        (hn : firsts.map Prod.fst = firstOccurrences before (found.map Prod.fst)) (hr : read ∈ firsts)
        (hb : head.1 ∈ before) (ho : (read.1, other) ∈ head :: found) : (read.1, other) ∈ found := by
      rcases mem_cons.mp ho with rfl | ho
      · have hm := hn ▸ mem_map_of_mem hr
        exact absurd hb (mem_firstOccurrences.mp hm).2
      · exact ho
    rw [map_cons, firstOccurrences]
    split
    · next hse =>
      obtain ⟨firsts, hn, hs, hf⟩ := ih seen hfd
      refine ⟨firsts, hn, hs.cons _, fun read hr other ho => ?_⟩
      exact hf read hr other (hl hn hr (contains_iff_mem.mp hse) ho)
    · obtain ⟨firsts, hn, hs, hf⟩ := ih (head.1 :: seen) hfd
      refine ⟨head :: firsts, by rw [map_cons, hn], hs.cons_cons _, ?_⟩
      rw [forall_mem_cons]
      refine ⟨fun other ho => ?_, fun read hr other ho => ?_⟩
      · rcases mem_cons.mp ho with heq | ho
        · exact .inl (congrArg Prod.snd heq).symm
        · exact .inr (hh _ ho)
      · exact hf read hr other (hl hn hr (.head _) ho)

theorem firstOccurrences_filter (test : String → Bool) {seen before : List String}
    (h : ∀ name, test name → (name ∈ seen ↔ name ∈ before)) :
    firstOccurrences seen (names.filter test) = (firstOccurrences before names).filter test := by
  induction names generalizing seen before with
  | nil => rfl
  | cons name names ih =>
    cases ht : test name with
    | false =>
      rw [filter_cons_of_neg (by simp [ht]), firstOccurrences]
      split
      · exact ih h
      · rw [filter_cons_of_neg (by simp [ht])]
        refine ih fun other ho => ?_
        have hn : other ≠ name := fun heq => by simp [← heq, ho] at ht
        simp [h other ho, hn]
    | true =>
      rw [filter_cons_of_pos ht, firstOccurrences, firstOccurrences]
      simp only [contains_iff_mem, h name ht]
      split
      · exact ih h
      · rw [filter_cons_of_pos ht]
        refine congrArg (name :: ·) (ih fun other ho => ?_)
        simp [h other ho]

/-! ### Dependencies -/

variable {code : String} {kind : SnippetKind} {snippet : Snippet}

theorem inferDependencies_eq_firstOccurrences (scope : ReactiveScope) (h : Snippet.parse code kind = .ok snippet) :
    inferDependencies code kind scope =
      .ok (firstOccurrences [] (reads scope snippet.root.bindings.contains snippet.root)) := by
  rw [inferDependencies, h]
  rfl

theorem ReactiveScope.Finds.asks {scope : ReactiveScope} {isBound : String → Bool} {root : Node} {name : String}
    (h : scope.Finds isBound root name) : scope.asks name := by
  obtain ⟨-, -, -, -, ⟨-, hm⟩ | ⟨-, hf, -⟩⟩ := h
  · simp [ReactiveScope.asks, hm]
  · simp [ReactiveScope.asks, hf]

theorem exists_places (scope : ReactiveScope) (h : Snippet.parse code kind = .ok snippet) :
    ∃ firsts : List (String × List ℕ), inferDependencies code kind scope = .ok (firsts.map Prod.fst) ∧
      firsts.Pairwise (fun read later => ReactiveScope.Precedes read.2 later.2) ∧
      ∀ read ∈ firsts, scope.FirstRead snippet.root.bindings.contains snippet.root read.1 read.2 := by
  obtain ⟨found, hf⟩ := @ReactiveScope.exists_enumeration scope snippet.root.bindings.contains snippet.root
  obtain ⟨firsts, hn, hs, hfs⟩ := exists_firstOccurrences [] hf.ascending
  refine ⟨firsts, ?_, hf.ascending.sublist hs, fun read hr => ?_⟩
  · rw [inferDependencies_eq_firstOccurrences scope h, hn, hf.names]
  · refine ⟨(hf.mem_iff read).mp (hs.mem hr), fun other ho => ?_⟩
    exact hfs read hr other ((hf.mem_iff (read.1, other)).mpr ho)

/-- With fewer members, the dependencies are those with more, less the others. -/
theorem inferDependencies_narrow {scope wider : ReactiveScope} {deps : List String} (hn : scope.Narrows wider)
    (h : inferDependencies code kind wider = .ok deps) :
    inferDependencies code kind scope = .ok (deps.filter scope.asks) := by
  unfold inferDependencies at h ⊢
  cases hp : Snippet.parse code kind with
  | error e =>
    rw [hp] at h
    cases h
  | ok snippet =>
    rw [hp] at h
    cases h
    refine congrArg Except.ok ?_
    rw [ReactiveScope.reads_eq_filter hn]
    exact firstOccurrences_filter _ fun _ _ => Iff.rfl

/-- Scopes that ask for members only narrow each other as their members do. -/
theorem narrows_of_members (h : ∀ name ∈ names, name ∈ others) :
    ReactiveScope.Narrows { members := names } { members := others } where
  members := h
  stateful := fun _ => Iff.rfl
  free := fun _ => Iff.rfl
  apart := fun _ _ => not_mem_nil

/-- The members referred to among fewer candidates are those among more, less the others. -/
theorem referencedMembers_eq_filter (hn : ∀ name ∈ names, name ∈ others)
    (h : referencedMembers code kind others = .ok found) :
    referencedMembers code kind names = .ok (found.filter names.contains) := by
  rw [referencedMembers, inferDependencies_narrow (narrows_of_members hn) h]
  refine congrArg Except.ok (filter_congr fun name _ => ?_)
  simp [ReactiveScope.asks]

theorem mem_of_referencedMembers (h : referencedMembers code kind names = .ok found) :
    ∀ name ∈ found, name ∈ names := by
  intro name hn
  have hs := referencedMembers_eq_filter (fun _ hn => hn) h
  rw [h, Except.ok.injEq] at hs
  rw [hs, mem_filter, contains_iff_mem] at hn
  exact hn.2

/-- The order of the candidates does not matter, nor do repeated ones. -/
theorem referencedMembers_congr (hs : ∀ name, name ∈ names ↔ name ∈ others)
    (h : referencedMembers code kind others = .ok found) : referencedMembers code kind names = .ok found := by
  rw [referencedMembers_eq_filter (fun name => (hs name).mp) h]
  refine congrArg Except.ok (filter_eq_self.mpr fun name hn => ?_)
  rw [contains_iff_mem, hs]
  exact mem_of_referencedMembers h name hn

/-! ### Indices -/

theorem exists_referencedMembers (names : List String) (h : Snippet.parse code kind = .ok snippet) :
    ∃ found, referencedMembers code kind names = .ok found ∧
      referencedIndices kind names code = .ok (found.filterMap fun name => names.findIdx? (· == name)) := by
  have hf := inferDependencies_eq_firstOccurrences { members := names } h
  refine ⟨_, hf, ?_⟩
  rw [referencedIndices, referencedMembers, hf]
  rfl

/-- The indices of names are indices at which they stand. -/
theorem filterMap_getElem?_findIdx? (h : ∀ name ∈ found, name ∈ names) :
    (found.filterMap fun name => names.findIdx? (· == name)).filterMap (fun i => names[i]?) = found := by
  rw [filterMap_filterMap]
  refine (filterMap_congr fun name hn => ?_).trans (filterMap_some ..)
  cases hi : names.findIdx? (· == name) with
  | none =>
    have hne := findIdx?_eq_none_iff.mp hi name (h name hn)
    simp at hne
  | some i =>
    obtain ⟨hl, heq, -⟩ := findIdx?_eq_some_iff_getElem.mp hi
    rw [Option.bind_some, getElem?_eq_getElem hl, beq_iff_eq.mp heq]

/-- **Dependencies** are listed once each, in the order of the places at which they are first read, and are names that
are asked for. With fewer members they are those with more, less the others. So the members that are referred to do not
depend on the order of the candidates, and of two lists of names the references to common names are the same. -/
theorem dependencies_restrict (h : Snippet.parse code kind = .ok snippet) :
    (∀ scope : ReactiveScope, ∃ firsts : List (String × List ℕ),
      inferDependencies code kind scope = .ok (firsts.map Prod.fst) ∧ (firsts.map Prod.fst).Nodup ∧
      (∀ name, name ∈ firsts.map Prod.fst ↔ scope.Finds snippet.root.bindings.contains snippet.root name) ∧
      (∀ name ∈ firsts.map Prod.fst, name ∈ scope.members ∨ name ∈ scope.free) ∧
      firsts.Pairwise (fun read later => ReactiveScope.Precedes read.2 later.2) ∧
      ∀ read ∈ firsts, scope.FirstRead snippet.root.bindings.contains snippet.root read.1 read.2) ∧
    (∀ scope wider : ReactiveScope, scope.Narrows wider → ∃ deps, inferDependencies code kind wider = .ok deps ∧
      inferDependencies code kind scope = .ok (deps.filter scope.asks)) ∧
    (∀ names others, (∀ name, name ∈ names ↔ name ∈ others) → ∃ found,
      referencedMembers code kind names = .ok found ∧ referencedMembers code kind others = .ok found) ∧
    ∀ names others, ∃ indices more, referencedIndices kind names code = .ok indices ∧
      referencedIndices kind others code = .ok more ∧
      (indices.filterMap fun i => names[i]?).filter others.contains =
        (more.filterMap fun i => others[i]?).filter names.contains := by
  refine ⟨fun scope => ?_, fun scope wider hn => ?_, fun names others hs => ?_, fun names others => ?_⟩
  · obtain ⟨firsts, hfi, ha, hr⟩ := exists_places scope h
    obtain ⟨deps, hd, hno, hm⟩ := inferDependencies_eq_ok scope h
    cases hfi.symm.trans hd
    refine ⟨firsts, hfi, hno, hm, fun name hna => ?_, ha, hr⟩
    simpa [ReactiveScope.asks] using ((hm name).mp hna).asks
  · obtain ⟨deps, hd, -⟩ := inferDependencies_eq_ok wider h
    exact ⟨deps, hd, inferDependencies_narrow hn hd⟩
  · obtain ⟨found, hf, -⟩ := exists_referencedMembers others h
    exact ⟨found, referencedMembers_congr hs hf, hf⟩
  · obtain ⟨all, hal, -⟩ := exists_referencedMembers (names ++ others) h
    obtain ⟨found, hf, hi⟩ := exists_referencedMembers names h
    obtain ⟨found', hf', hi'⟩ := exists_referencedMembers others h
    refine ⟨_, _, hi, hi', ?_⟩
    rw [filterMap_getElem?_findIdx? (mem_of_referencedMembers hf),
      filterMap_getElem?_findIdx? (mem_of_referencedMembers hf')]
    -- Both are what is referred to among all names, less the names that are not common.
    rw [referencedMembers_eq_filter (fun _ => mem_append_left _) hal, Except.ok.injEq] at hf
    rw [referencedMembers_eq_filter (fun _ => mem_append_right _) hal, Except.ok.injEq] at hf'
    rw [← hf, ← hf', filter_filter, filter_filter]
    exact filter_congr fun name _ => Bool.and_comm ..

/-- In `this.b(this.a, k) + this.b` the members come before the variable, and `b` before `a`. -/
theorem dependencies_restrict_call :
    inferDependencies "this.b(this.a, k) + this.b" .expression { members := ["a", "b"], free := ["k"] } =
      .ok ["b", "a", "k"] ∧
    inferDependencies "this.b(this.a, k) + this.b" .expression { members := ["a"], free := ["k"] } =
      .ok ["a", "k"] := by
  have hp : (Snippet.parse? "this.b(this.a, k) + this.b" .expression).any (fun _ => true) := by
    decide +kernel
  obtain ⟨snippet, hs, -⟩ := Snippet.exists_parse_of_any hp
  have hw : inferDependencies "this.b(this.a, k) + this.b" .expression { members := ["a", "b"], free := ["k"] } =
      .ok ["b", "a", "k"] := by decide +kernel
  obtain ⟨deps, hd, hn⟩ := (dependencies_restrict hs).2.1 { members := ["a"], free := ["k"] }
    { members := ["a", "b"], free := ["k"] } ⟨by decide, fun _ => Iff.rfl, fun _ => Iff.rfl, by decide⟩
  rw [hw, Except.ok.injEq] at hd
  rw [hn, ← hd]
  exact ⟨hw, by decide⟩

end Polyview
