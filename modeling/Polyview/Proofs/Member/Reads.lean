import Polyview.Member.Dependency
import Polyview.Proofs.Script.Place
import Polyview.Proofs.Script.Snippet

/-! # What a scan for reads finds

`reads` walks over a tree and collects the members and variables that it reads. On its way it passes over
some parts: the operand of an update and the callee of a call that change a member with a setter, the
target of an assignment that does so (the index of its outermost access apart), and what stands in front of
the arguments of a call of a variable.

`visits` tells the places that the scan goes on to from a node, and `reads_eq_visits` that it collects what is
read at the node itself and then what is read at these places. `mem_reads_iff` says exactly what is found: the
accesses `this.member` and the variables at those places that no node on the way passes over. -/

namespace Polyview

open List Script Node

variable {place : List ℕ} {span : Span}

/-! ### Names of members -/

/-- The member that a node names as `this.member`: by an access, or as the name of a tag. -/
def thisName? : Node → Option String
  | .mk (.jsxMember name) _ [object] => if isThis object then some name else none
  | node => thisMember? node

/-- The member that the node at a place names. -/
def thisNameAt? (root : Node) (place : List ℕ) : Option String := (root.at? place).bind thisName?

/-- The place of the access `this.member` that a chain of accesses starts from. -/
def rootPlace? : Node → Option (List ℕ)
  | .mk (.member _ _) _ [object] => if isThis object then some [] else (rootPlace? object).map (0 :: ·)
  | .mk (.index _) _ [object, _] => (rootPlace? object).map (0 :: ·)
  | _ => none

namespace ReactiveScope

variable (scope : ReactiveScope)

/-! ### Places that are seen -/

/-- Whether a place is the root of the target of a change: the `this.member` that the chain of accesses
which is assigned, updated or called there starts from, for a member with a setter. -/
def isTarget : Node → List ℕ → Bool
  | _, [] => false
  | node, i :: place =>
    (scope.changes node && i == 0 && node.part?.bind rootPlace? == some place) ||
      match node.parts[i]? with
      | some part => isTarget part place
      | none => false

/-- Whether the scan of a node passes over a place in it. -/
def passesOver : Node → List ℕ → Bool
  | .mk (.reference _) _ _, _ :: _ => true
  | .mk (.member _ _) _ [object], _ :: _ => isThis object
  | .mk (.assign op) span [target, value], 0 :: place =>
    scope.changes (.mk (.assign op) span [target, value]) &&
      match target, place with
      | .mk (.index _) _ [_, _], 1 :: _ => false
      | _, _ => true
  | .mk (.update increment before) span [target], _ :: _ => scope.changes (.mk (.update increment before) span [target])
  | .mk (.call _) _ [callee, _], 0 :: _ => scope.skipsCallee callee
  | .mk (.call _) _ [callee, _, _], i :: _ => scope.skipsCallee callee && i < 2
  | _, _ => false

/-- Whether a place is seen: no node on the way passes over it. -/
def sees : Node → List ℕ → Bool
  | _, [] => true
  | node, i :: place =>
    !scope.passesOver node (i :: place) &&
      match node.parts[i]? with
      | some part => sees part place
      | none => false

/-- What the scan takes for a read of a name at a node. -/
def IsRead (isBound : String → Bool) (node : Node) (name : String) : Prop :=
  (thisMember? node = some name ∧ name ∈ scope.members) ∨
    (node.referenceName? = some name ∧ name ∈ scope.free ∧ isBound name = false)

/-- A name is read at a place that is seen. -/
def Finds (isBound : String → Bool) (root : Node) (name : String) : Prop :=
  ∃ place node, root.at? place = some node ∧ scope.sees root place ∧ scope.IsRead isBound node name

/-! ### Steps of the scan -/

/-- The places below a node that the scan goes on to, in order. -/
def visits : Node → List (List ℕ)
  | .mk (.reference _) _ _ => []
  | .mk (.member _ _) _ [object] => if isThis object then [] else [[0]]
  | .mk (.assign op) span [target, value] =>
    if scope.changes (.mk (.assign op) span [target, value]) then
      match target with
      | .mk (.index _) _ [_, _] => [[0, 1], [1]]
      | _ => [[1]]
    else [[0], [1]]
  | .mk (.update increment before) span [target] =>
    if scope.changes (.mk (.update increment before) span [target]) then [] else [[0]]
  | .mk (.call _) _ [callee, _] => if scope.skipsCallee callee then [[1]] else [[0], [1]]
  | .mk (.call _) _ [callee, _, _] => if scope.skipsCallee callee then [[2]] else [[0], [1], [2]]
  | .mk _ _ parts => (List.range parts.length).map fun i => [i]

/-- What the scan takes at a node itself. -/
def ownReads (isBound : String → Bool) : Node → List String
  | .mk (.reference name) _ _ => if scope.free.contains name && !isBound name then [name] else []
  | .mk (.member name _) _ [object] => if isThis object && scope.members.contains name then [name] else []
  | _ => []

/-- The reads at a place below a node. -/
def readsAt (isBound : String → Bool) (node : Node) (place : List ℕ) : List String :=
  ((node.at? place).map (reads scope isBound)).getD []

variable {scope} {isBound : String → Bool} {root : Node} {name : String}

theorem readsOf_eq_flatMap (nodes : List Node) :
    readsOf scope isBound nodes = nodes.flatMap (reads scope isBound) := by
  induction nodes with
  | nil => rfl
  | cons node rest ih => rw [readsOf, ih, flatMap_cons]

theorem flatMap_range_getElem? {α β : Type} (items : List α) (f : α → List β) :
    (List.range items.length).flatMap (fun i => (items[i]?.map f).getD []) = items.flatMap f := by
  induction items with
  | nil => rfl
  | cons item items ih =>
    rw [length_cons, range_succ_eq_map, flatMap_cons, flatMap_map, flatMap_cons, ← ih]
    rfl

theorem readsAt_singleton (node : Node) (i : ℕ) :
    scope.readsAt isBound node [i] = (node.parts[i]?.map (reads scope isBound)).getD [] := by
  cases hi : node.parts[i]? <;> simp [readsAt, Node.at?, hi]

/-- The reads in a tree are those at its root, and those at the places that the scan goes on to. -/
theorem reads_eq_visits (node : Node) : reads scope isBound node =
    scope.ownReads isBound node ++ (scope.visits node).flatMap (scope.readsAt isBound node) := by
  unfold reads
  split
  case h_1 => simp [ownReads, visits]
  case h_2 label optional span object =>
    cases ht : isThis object <;> simp [ownReads, visits, ht, readsAt_singleton, Node.parts]
  case h_3 op span target value =>
    cases hc : scope.changes (.mk (.assign op) span [target, value]) with
    | false => simp [ownReads, visits, hc, readsAt_singleton, Node.parts]
    | true =>
      simp only [ownReads, visits, hc, if_true, nil_append]
      split <;> simp [readsAt, Node.at?, Node.parts]
  case h_4 increment before span target =>
    cases hc : scope.changes (.mk (.update increment before) span [target]) <;>
      simp [ownReads, visits, hc, readsAt_singleton, Node.parts]
  case h_5 callee arguments =>
    cases hs : scope.skipsCallee callee <;> simp [ownReads, visits, hs, readsAt_singleton, Node.parts]
  case h_6 callee types arguments =>
    cases hs : scope.skipsCallee callee <;> simp [ownReads, visits, hs, readsAt_singleton, Node.parts]
  case h_7 shape span parts href hm ha hu hca hty =>
    have ho : scope.ownReads isBound (.mk shape span parts) = [] := by
      unfold ownReads
      grind
    have hv : scope.visits (.mk shape span parts) = (List.range parts.length).map fun i => [i] := by
      unfold visits
      grind
    rw [ho, hv, nil_append, flatMap_map]
    simp only [readsAt_singleton]
    rw [readsOf_eq_flatMap]
    exact (flatMap_range_getElem? parts (reads scope isBound)).symm

theorem sees_cons {part : Node} {i : ℕ} (h : root.parts[i]? = some part) :
    scope.sees root (i :: place) ↔ scope.passesOver root (i :: place) = false ∧ scope.sees part place := by
  rw [sees, h, Bool.and_eq_true, Bool.not_eq_true']

theorem sees_cons_iff {node : Node} {i : ℕ} : scope.sees node (i :: place) ↔
    scope.passesOver node (i :: place) = false ∧ ∃ part, node.parts[i]? = some part ∧ scope.sees part place := by
  rw [sees, Bool.and_eq_true, Bool.not_eq_true']
  cases node.parts[i]? <;> simp

/-- Where a node passes over whole parts only, a place is seen if it is the root, or seen from one of the others. -/
theorem sees_iff_of_indices {node : Node} (indices : List ℕ)
    (hover : ∀ i < node.parts.length, ∀ place, scope.passesOver node (i :: place) = false ↔ i ∈ indices) :
    scope.sees node place ↔ place = [] ∨ ∃ next ∈ indices.map fun i => [i], ∃ part rest,
      place = next ++ rest ∧ node.at? next = some part ∧ scope.sees part rest = true := by
  rcases place with _ | ⟨i, place⟩
  · simp [sees]
  rw [sees_cons_iff]
  simp only [reduceCtorEq, false_or, mem_map]
  constructor
  · rintro ⟨hse, part, hp, hs⟩
    have ha : node.at? [i] = some part := at?_cons_eq_some.mpr ⟨part, hp, rfl⟩
    have hi := (hover i (List.getElem?_eq_some_iff.mp hp).1 place).mp hse
    exact ⟨[i], ⟨i, hi, rfl⟩, part, place, rfl, ha, hs⟩
  · rintro ⟨_, ⟨j, hj, rfl⟩, part, rest, heq, ha, hs⟩
    cases heq
    obtain ⟨part', hp, ha⟩ := at?_cons_eq_some.mp ha
    cases ha
    exact ⟨(hover i (List.getElem?_eq_some_iff.mp hp).1 _).mpr hj, part, hp, hs⟩

/-- A place is seen if it is the root, or seen from a place that the scan goes on to. -/
theorem sees_iff_visits (node : Node) (place : List ℕ) : scope.sees node place ↔
    place = [] ∨ ∃ next ∈ scope.visits node, ∃ part rest,
      place = next ++ rest ∧ node.at? next = some part ∧ scope.sees part rest = true := by
  fun_cases visits scope node
  case case1 => exact sees_iff_of_indices [] (by simp [passesOver])
  case case2 label optional span object ht => exact sees_iff_of_indices [] (by simp [passesOver, ht])
  case case3 label optional span object ht =>
    refine sees_iff_of_indices [0] fun i hi place => ?_
    rcases i with _ | i
    · simp [passesOver, ht]
    · grind [Node.parts]
  case case4 op span value optional inner object index hc =>
    -- Of the target, only the index is scanned.
    rcases place with _ | ⟨i, place⟩
    · simp [sees]
    rw [sees_cons_iff]
    rcases i with _ | _ | i
    · rcases place with _ | ⟨_ | _ | j, place⟩ <;>
        simp [passesOver, hc, Node.at?, Node.parts, sees_cons_iff]
    · simp [passesOver, Node.at?, Node.parts]
    · simp [Node.parts]
  case case5 op span target value hc hin =>
    refine sees_iff_of_indices [1] fun i hi place => ?_
    rcases i with _ | _ | i
    · unfold passesOver
      grind
    · simp [passesOver]
    · grind [Node.parts]
  case case6 op span target value hc =>
    refine sees_iff_of_indices [0, 1] fun i hi place => ?_
    rcases i with _ | _ | i
    · simp [passesOver, hc]
    · simp [passesOver]
    · grind [Node.parts]
  case case7 increment before span target hc => exact sees_iff_of_indices [] (by simp [passesOver, hc])
  case case8 increment before span target hc =>
    refine sees_iff_of_indices [0] fun i hi place => ?_
    rcases i with _ | i
    · simp [passesOver, hc]
    · grind [Node.parts]
  case case9 optional span callee arguments hs =>
    refine sees_iff_of_indices [1] fun i hi place => ?_
    rcases i with _ | _ | i
    · simp [passesOver, hs]
    · simp [passesOver]
    · grind [Node.parts]
  case case10 optional span callee arguments hs =>
    refine sees_iff_of_indices [0, 1] fun i hi place => ?_
    rcases i with _ | _ | i
    · simp [passesOver, hs]
    · simp [passesOver]
    · grind [Node.parts]
  case case11 optional span callee types arguments hs =>
    refine sees_iff_of_indices [2] fun i hi place => ?_
    rcases i with _ | _ | _ | i
    · simp [passesOver, hs]
    · simp [passesOver, hs]
    · simp [passesOver]
    · grind [Node.parts]
  case case12 optional span callee types arguments hs =>
    refine sees_iff_of_indices [0, 1, 2] fun i hi place => ?_
    rcases i with _ | _ | _ | i
    · simp [passesOver, hs]
    · simp [passesOver, hs]
    · simp [passesOver]
    · grind [Node.parts]
  case case13 shape span parts href hm ha hu hca hty =>
    refine sees_iff_of_indices (List.range parts.length) fun i hi place => ?_
    refine iff_of_true ?_ (mem_range.mpr hi)
    unfold passesOver
    grind

theorem isRead_reference {label : String} {parts : List Node} :
    scope.IsRead isBound (.mk (.reference label) span parts) name ↔
      name = label ∧ label ∈ scope.free ∧ isBound label = false := by
  simp only [IsRead, thisMember?, referenceName?, Node.shape, Option.some.injEq]
  grind

theorem isRead_member {label : String} {optional : Bool} {object : Node} :
    scope.IsRead isBound (.mk (.member label optional) span [object]) name ↔
      isThis object ∧ name = label ∧ label ∈ scope.members := by
  simp only [IsRead, thisMember?, referenceName?, Node.shape]
  grind

/-- Nothing else than an access or a variable is a read. -/
theorem not_isRead {shape : Shape} {parts : List Node}
    (hm : ∀ label optional object, shape = .member label optional → parts ≠ [object])
    (href : ∀ label, shape ≠ .reference label) : ¬ scope.IsRead isBound (.mk shape span parts) name := by
  rintro (⟨h, -⟩ | ⟨h, -⟩)
  · unfold thisMember? at h
    split at h
    · next label optional _ object heq =>
      cases heq
      exact hm label optional object rfl rfl
    · cases h
  · unfold referenceName? at h
    split at h
    · next label heq => exact href label heq
    · cases h

theorem ne_nil_of_mem_visits {next : List ℕ} (h : next ∈ scope.visits root) : next ≠ [] := by
  unfold visits at h
  grind

/-- What is taken at a node is what is a read there. -/
theorem mem_ownReads_iff : name ∈ scope.ownReads isBound root ↔ scope.IsRead isBound root name := by
  unfold ownReads
  split
  · rw [isRead_reference]
    split <;> simp_all
  · rw [isRead_member]
    split <;> simp_all
  · next href hm =>
    refine iff_of_false not_mem_nil ?_
    rcases root with ⟨shape, span, parts⟩
    refine not_isRead (fun label optional object hs hp => ?_) fun label hs => ?_
    · exact hm label optional span object (by rw [hs, hp])
    · exact href label span parts (by rw [hs])

/-! ### Places of reads -/

/-- A place is written before another: it contains the other, or lies to the left of it. -/
def Precedes (place other : List ℕ) : Prop := List.Lex (· < ·) place other

theorem precedes_append_iff (next place other : List ℕ) :
    Precedes (next ++ place) (next ++ other) ↔ Precedes place other := by
  unfold Precedes
  induction next with
  | nil => rfl
  | cons i next ih => simp only [cons_append, cons_lex_cons_iff, ih, Nat.lt_irrefl, true_and, false_or]

variable (scope isBound root) in
/-- A name is read at a place that is seen. -/
def IsReadAt (name : String) (place : List ℕ) : Prop :=
  ∃ node, root.at? place = some node ∧ scope.sees root place = true ∧ scope.IsRead isBound node name

theorem isReadAt_iff_visits : scope.IsReadAt isBound root name place ↔
    (place = [] ∧ scope.IsRead isBound root name) ∨ ∃ next ∈ scope.visits root, ∃ part rest,
      place = next ++ rest ∧ root.at? next = some part ∧ scope.IsReadAt isBound part name rest := by
  constructor
  · rintro ⟨node, hn, hs, hr⟩
    rcases (sees_iff_visits root place).mp hs with rfl | ⟨next, hne, part, rest, rfl, hp, hs⟩
    · cases hn
      exact .inl ⟨rfl, hr⟩
    · rw [at?_append, hp] at hn
      exact .inr ⟨next, hne, part, rest, rfl, hp, node, hn, hs, hr⟩
  · rintro (⟨rfl, hr⟩ | ⟨next, hne, part, rest, rfl, hp, node, hn, hs, hr⟩)
    · exact ⟨root, rfl, rfl, hr⟩
    · refine ⟨node, ?_, ?_, hr⟩
      · rw [at?_append, hp]
        exact hn
      · exact (sees_iff_visits root _).mpr (.inr ⟨next, hne, part, rest, rfl, hp, hs⟩)

/-- The places that the scan goes on to lie apart, and in order. -/
theorem visits_pairwise (node : Node) :
    (scope.visits node).Pairwise fun next later => ∀ rest more, Precedes (next ++ rest) (later ++ more) := by
  have hh {i j : ℕ} (hl : i < j) (rest more : List ℕ) : Precedes (i :: rest) (j :: more) := List.Lex.rel hl
  fun_cases visits scope node
  all_goals try simp [hh]
  exact pairwise_map.mpr (pairwise_lt_range.imp fun hl rest more => hh hl rest more)

variable (scope isBound root) in
/-- A list of the reads in a tree with their places. -/
structure Enumerates (found : List (String × List ℕ)) : Prop where
  names : found.map Prod.fst = reads scope isBound root
  ascending : found.Pairwise fun read later => Precedes read.2 later.2
  mem_iff : ∀ read, read ∈ found ↔ scope.IsReadAt isBound root read.1 read.2

/-- The reads below a node can be listed with their places if those of its parts can be. -/
theorem exists_enumeration_below {nexts : List (List ℕ)}
    (hb : ∀ next ∈ nexts, ∀ part, root.at? next = some part → ∃ found, scope.Enumerates isBound part found)
    (ha : nexts.Pairwise fun next later => ∀ rest more, Precedes (next ++ rest) (later ++ more)) :
    ∃ found : List (String × List ℕ), found.map Prod.fst = nexts.flatMap (scope.readsAt isBound root) ∧
      found.Pairwise (fun read later => Precedes read.2 later.2) ∧
      ∀ read, read ∈ found ↔ ∃ next ∈ nexts, ∃ part rest, read.2 = next ++ rest ∧ root.at? next = some part ∧
        scope.IsReadAt isBound part read.1 rest := by
  induction nexts with
  | nil => exact ⟨[], rfl, .nil, by simp⟩
  | cons next nexts ih =>
    rw [pairwise_cons] at ha
    rw [forall_mem_cons] at hb
    obtain ⟨later, hn, has, hm⟩ := ih hb.2 ha.2
    cases hp : root.at? next with
    | none => exact ⟨later, by simpa [readsAt, hp] using hn, has, by simp [hm, hp]⟩
    | some part =>
      obtain ⟨found, hf⟩ := hb.1 part hp
      refine ⟨found.map (fun read => (read.1, next ++ read.2)) ++ later, ?_, ?_, ?_⟩
      · have hfs : found.map (Prod.fst ∘ fun read => (read.1, next ++ read.2)) = found.map Prod.fst := rfl
        rw [map_append, map_map, hn, hfs, hf.names, flatMap_cons]
        simp [readsAt, hp]
      · rw [pairwise_append, pairwise_map]
        refine ⟨hf.ascending.imp fun h => (precedes_append_iff next _ _).mpr h, has, ?_⟩
        rw [forall_mem_map]
        intro read _ other ho
        obtain ⟨after, haf, -, rest, hpl, -⟩ := (hm other).mp ho
        rw [hpl]
        exact ha.1 after haf read.2 rest
      · rintro ⟨name, place⟩
        rw [mem_append, hm, mem_map, exists_mem_cons_iff]
        refine or_congr_left ⟨?_, ?_⟩
        · rintro ⟨read, hr, heq⟩
          cases heq
          exact ⟨part, read.2, rfl, hp, (hf.mem_iff read).mp hr⟩
        · rintro ⟨_, rest, rfl, heq, hr⟩
          cases hp.symm.trans heq
          exact ⟨(name, rest), (hf.mem_iff (name, rest)).mpr hr, rfl⟩

theorem length_ownReads_le (node : Node) : (scope.ownReads isBound node).length ≤ 1 := by
  unfold ownReads
  split
  · split <;> simp
  · split <;> simp
  · simp

/-- **The reads in a tree are found in the order in which they are written.** -/
theorem exists_enumeration (root : Node) : ∃ found, scope.Enumerates isBound root found := by
  induction root using strongInduction with
  | h root below =>
    obtain ⟨later, hnm, ha, hm⟩ := @exists_enumeration_below scope isBound root (scope.visits root)
      (fun next hn part hp => by
        obtain ⟨i, place, rfl⟩ := exists_cons_of_ne_nil (ne_nil_of_mem_visits hn)
        exact below i place part hp) (visits_pairwise root)
    have how : ((scope.ownReads isBound root).map fun name => (name, ([] : List ℕ))).Pairwise
        fun read later => Precedes read.2 later.2 := by
      have hl := @length_ownReads_le scope isBound root
      generalize scope.ownReads isBound root = names at hl
      rcases names with _ | ⟨name, _ | _⟩
      · exact .nil
      · exact pairwise_singleton ..
      · simp at hl
    refine ⟨(scope.ownReads isBound root).map (fun name => (name, [])) ++ later, ?_, ?_, ?_⟩
    · rw [reads_eq_visits, map_append, hnm, map_map]
      exact congrArg (· ++ _) (map_id _)
    · refine pairwise_append.mpr ⟨how, ha, ?_⟩
      rw [forall_mem_map]
      intro name _ other ho
      obtain ⟨next, hn, -, rest, hpl, -⟩ := (hm other).mp ho
      obtain ⟨i, place, rfl⟩ := exists_cons_of_ne_nil (ne_nil_of_mem_visits hn)
      rw [hpl]
      exact List.Lex.nil
    · rintro ⟨name, place⟩
      rw [mem_append, hm, isReadAt_iff_visits, mem_map]
      refine or_congr_left ⟨?_, ?_⟩
      · rintro ⟨_, hna, heq⟩
        cases heq
        exact ⟨rfl, mem_ownReads_iff.mp hna⟩
      · rintro ⟨rfl, hr⟩
        exact ⟨name, mem_ownReads_iff.mpr hr, rfl⟩

/-- **What the scan finds:** the accesses and variables at the places that are seen. -/
theorem mem_reads_iff : name ∈ reads scope isBound root ↔ scope.Finds isBound root name := by
  obtain ⟨found, hf⟩ := @exists_enumeration scope isBound root
  rw [← hf.names, mem_map]
  constructor
  · rintro ⟨⟨_, place⟩, hr, rfl⟩
    exact ⟨place, (hf.mem_iff _).mp hr⟩
  · rintro ⟨place, hr⟩
    exact ⟨(name, place), (hf.mem_iff (name, place)).mpr hr, rfl⟩

end ReactiveScope

/-! ### Dependencies of a snippet -/

theorem mem_firstOccurrences {names seen : List String} {name : String} :
    name ∈ firstOccurrences seen names ↔ name ∈ names ∧ name ∉ seen := by
  induction names generalizing seen with
  | nil => simp [firstOccurrences]
  | cons first rest ih =>
    rw [firstOccurrences]
    split
    · next hs =>
      rw [contains_iff_mem] at hs
      rw [ih]
      grind
    · next hf =>
      rw [contains_iff_mem] at hf
      rw [mem_cons, ih]
      grind

theorem nodup_firstOccurrences (names seen : List String) : (firstOccurrences seen names).Nodup := by
  induction names generalizing seen with
  | nil => simp [firstOccurrences]
  | cons first rest ih =>
    rw [firstOccurrences]
    split
    · exact ih seen
    · refine nodup_cons.mpr ⟨fun hm => ?_, ih _⟩
      exact (mem_firstOccurrences.mp hm).2 (.head _)

/-- **The dependencies of a snippet** are the names that are read at places that are seen. -/
theorem inferDependencies_eq_ok {code : String} {kind : SnippetKind} {snippet : Snippet}
    (scope : ReactiveScope) (h : Snippet.parse code kind = .ok snippet) :
    ∃ deps, inferDependencies code kind scope = .ok deps ∧ deps.Nodup ∧
      ∀ name, name ∈ deps ↔ scope.Finds snippet.root.bindings.contains snippet.root name := by
  refine ⟨firstOccurrences [] (reads scope snippet.root.bindings.contains snippet.root), ?_,
    nodup_firstOccurrences _ _, fun name => ?_⟩
  · unfold inferDependencies
    rw [h]
    rfl
  · rw [mem_firstOccurrences, ReactiveScope.mem_reads_iff]
    simp

/-- Whether the scan misses the member that is named at a place: it is the name of a tag, or a node on the
way passes over it. -/
def ReactiveScope.misses (scope : ReactiveScope) (root : Node) (place : List ℕ) : Bool :=
  !scope.sees root place || (root.at? place).bind thisMember? == none

/-- Every member that is named somewhere, except as the root of the target of a change, is listed. -/
def ReactiveScope.Covers (scope : ReactiveScope) (root : Node) (deps : List String) : Prop :=
  ∀ place, ∀ member ∈ scope.members, thisNameAt? root place = some member →
    scope.isTarget root place = false → member ∈ deps

/-- A member that is named where the scan does not miss it is found. -/
theorem ReactiveScope.finds_of_not_misses {scope : ReactiveScope} {isBound : String → Bool} {root : Node}
    {member : String} (hn : thisNameAt? root place = some member) (hmb : member ∈ scope.members)
    (hm : scope.misses root place = false) : scope.Finds isBound root member := by
  obtain ⟨node, hno, hn⟩ := Option.bind_eq_some_iff.mp hn
  simp only [misses, hno, Option.bind_some, Bool.or_eq_false_iff, Bool.not_eq_false'] at hm
  obtain ⟨hs, ha⟩ := hm
  refine ⟨place, node, hno, hs, Or.inl ⟨?_, hmb⟩⟩
  unfold thisName? at hn
  split at hn
  · simp [thisMember?] at ha
  · exact hn

/-- **When dependencies are complete:** exactly if every member that the scan misses at some place, the
roots of targets apart, is found at another place. -/
theorem inferDependencies_covers_iff {code : String} {kind : SnippetKind} {snippet : Snippet}
    (scope : ReactiveScope) (h : Snippet.parse code kind = .ok snippet) :
    ∃ deps, inferDependencies code kind scope = .ok deps ∧
      (∀ name, name ∈ deps ↔ scope.Finds snippet.root.bindings.contains snippet.root name) ∧
      (scope.Covers snippet.root deps ↔
        ∀ place, ∀ member ∈ scope.members, thisNameAt? snippet.root place = some member →
          scope.isTarget snippet.root place = false → scope.misses snippet.root place = true →
            scope.Finds snippet.root.bindings.contains snippet.root member) := by
  obtain ⟨deps, hd, -, hme⟩ := inferDependencies_eq_ok scope h
  refine ⟨deps, hd, hme, ?_, ?_⟩
  · intro hc place member hm hn ht _
    exact (hme member).mp (hc place member hm hn ht)
  · intro hf place member hm hn ht
    rw [hme]
    cases hmi : scope.misses snippet.root place with
    | true => exact hf place member hm hn ht hmi
    | false => exact ReactiveScope.finds_of_not_misses hn hm hmi

/-- In `this.total = this.items[this.k]` the scan sees the index. -/
theorem inferDependencies_covers_read :
    ∃ snippet deps, Snippet.parse "this.total = this.items[this.k]" .expression = .ok snippet ∧
      inferDependencies "this.total = this.items[this.k]" .expression
        { members := ["total", "items", "k"], stateful := ["total"] } = .ok deps ∧ "k" ∈ deps := by
  have hp : (Snippet.parse? "this.total = this.items[this.k]" .expression).any (fun snippet =>
      thisNameAt? snippet.root [0, 0, 0, 1, 1] == some "k" &&
        !ReactiveScope.misses { members := ["total", "items", "k"], stateful := ["total"] }
          snippet.root [0, 0, 0, 1, 1]) = true := by decide +kernel
  obtain ⟨snippet, hs, ht⟩ := Snippet.exists_parse_of_any hp
  rw [Bool.and_eq_true, beq_iff_eq, Bool.not_eq_true'] at ht
  obtain ⟨deps, hd, hm, -⟩ := inferDependencies_covers_iff
    { members := ["total", "items", "k"], stateful := ["total"] } hs
  refine ⟨snippet, deps, hs, hd, (hm "k").mpr ?_⟩
  exact ReactiveScope.finds_of_not_misses ht.1 (by simp) ht.2

/-- The index of an updated element is missed: `this.counts[this.k]++` reads `k`, but has no
dependencies. -/
theorem inferDependencies_misses_index : ∃ snippet, Snippet.parse "this.counts[this.k]++" .expression = .ok snippet ∧
      inferDependencies "this.counts[this.k]++" .expression
        { members := ["counts", "k"], stateful := ["counts"] } = .ok [] ∧
      ¬ ReactiveScope.Covers { members := ["counts", "k"], stateful := ["counts"] } snippet.root [] := by
  have hp : (Snippet.parse? "this.counts[this.k]++" .expression).any (fun snippet =>
      thisNameAt? snippet.root [0, 0, 0, 0, 1] == some "k" &&
        !ReactiveScope.isTarget { members := ["counts", "k"], stateful := ["counts"] }
          snippet.root [0, 0, 0, 0, 1]) = true := by decide +kernel
  obtain ⟨snippet, hs, ht⟩ := Snippet.exists_parse_of_any hp
  rw [Bool.and_eq_true, beq_iff_eq, Bool.not_eq_true'] at ht
  refine ⟨snippet, hs, by decide +kernel, fun hc => ?_⟩
  have hm := hc [0, 0, 0, 0, 1] "k" (by simp) ht.1 ht.2
  simp at hm

end Polyview
