import Polyview.Proofs.Order.Topological

/-! # Listing items in the presence of cycles

With cycles there need not be a topological order. As long as some item is ready, the smallest ready one is
listed; where none is, the search is *stuck*, and the smallest item that is left is *forced* out of turn.
`stableOrder_picks` says that every item of the order is picked in one of these two ways.

An item is only ever forced if it leads to a cycle. So an item stands behind each item that it awaits and
that leads to no cycle. Of an item that leads to a cycle without being on it nothing of this kind is true:
it may be forced before the items on the cycle are listed (`stableOrder_bystander`). -/

namespace Polyview.Order

open List

variable {i j : ℕ}

/-- Item `i` depends on item `j`, directly or by way of others, or is the same. -/
def Reaches (deps : List (List ℕ)) : ℕ → ℕ → Prop := Relation.ReflTransGen (Awaits deps)

/-- An item awaits itself by way of others. -/
def OnCycle (deps : List (List ℕ)) (i : ℕ) : Prop := Relation.TransGen (Awaits deps) i i

/-- An item stands before another. -/
def Precedes (order : List ℕ) (j i : ℕ) : Prop := ∃ before after, order = before ++ i :: after ∧ j ∈ before

/-- No item is ready. -/
def Stuck (deps : List (List ℕ)) (listed : List ℕ) : Prop := ∀ i, ¬ Ready deps listed i

/-- The item that is listed out of turn: the smallest one that is left when no item is ready. -/
structure Forced (deps : List (List ℕ)) (listed : List ℕ) (i : ℕ) : Prop where
  lt : i < deps.length
  fresh : i ∉ listed
  stuck : Stuck deps listed
  least : ∀ j < deps.length, j ∉ listed → i ≤ j

/-- The item that is listed next: the smallest ready one, or one that is forced. -/
def Picks (deps : List (List ℕ)) (listed : List ℕ) (i : ℕ) : Prop :=
  (Ready deps listed i ∧ ∀ j, Ready deps listed j → i ≤ j) ∨ Forced deps listed i

variable {deps : List (List ℕ)} {listed : List ℕ}

theorem Picks.lt (h : Picks deps listed i) : i < deps.length := h.elim (fun h => h.1.lt) fun h => h.lt

theorem Picks.fresh (h : Picks deps listed i) : i ∉ listed := h.elim (fun h => h.1.fresh) fun h => h.fresh

/-- Only the set of listed items matters. -/
theorem ready_congr {other : List ℕ} (h : ∀ j, j ∈ listed ↔ j ∈ other) (i : ℕ) :
    Ready deps listed i ↔ Ready deps other i := by
  constructor
  · rintro ⟨hl, hf, ha⟩
    exact ⟨hl, fun hi => hf ((h i).mpr hi), fun d hd => (h d).mp (ha d hd)⟩
  · rintro ⟨hl, hf, ha⟩
    exact ⟨hl, fun hi => hf ((h i).mp hi), fun d hd => (h d).mpr (ha d hd)⟩

theorem picks_congr {other : List ℕ} (h : ∀ j, j ∈ listed ↔ j ∈ other) (hi : Picks deps listed i) :
    Picks deps other i := by
  rcases hi with ⟨hr, hm⟩ | ⟨hlt, hf, hs, hl⟩
  · refine Or.inl ⟨(ready_congr h i).mp hr, fun j hj => hm j ((ready_congr h j).mpr hj)⟩
  · refine Or.inr ⟨hlt, fun hi => hf ((h i).mpr hi), fun j hj => ?_, fun j hj hf => ?_⟩
    · exact hs j ((ready_congr h j).mpr hj)
    · exact hl j hj fun hj => hf ((h j).mp hj)

/-! ### The next item -/

theorem next?_of_stuck (hs : Stuck deps listed) (hlt : i < deps.length) (hfr : i ∉ listed) :
    ∃ j, next? deps.toArray listed = some j ∧ Forced deps listed j := by
  have hn : ((List.range deps.length).filter fun i => !listed.contains i).find?
      (isReady deps.toArray listed) = none := by
    rw [find?_eq_none]
    intro j hj hr
    rw [mem_filter, mem_range] at hj
    exact hs j ⟨hj.1, by simpa using hj.2, isReady_iff.mp hr⟩
  obtain ⟨j, hj, hl⟩ : ∃ j, ((List.range deps.length).filter fun i => !listed.contains i).head? = some j ∧
      ∀ k < deps.length, k ∉ listed → j ≤ k := by
    rw [head?_filter]
    cases hf : (List.range deps.length).find? fun i => !listed.contains i with
    | none =>
      have := find?_eq_none.mp hf i (mem_range.mpr hlt)
      simp [hfr] at this
    | some j =>
      refine ⟨j, rfl, fun k hk hkl => ?_⟩
      by_contra hkj
      have := (find?_range_eq_some.mp hf).2.2 k (by omega)
      simp [hkl] at this
  have hm := mem_filter.mp (mem_of_head? hj)
  refine ⟨j, ?_, mem_range.mp hm.1, by simpa using hm.2, hs, hl⟩
  simp only [next?, size_toArray, hn, Option.none_or, hj]

/-- As long as items are left, the search picks one. -/
theorem next?_picks (h : ∃ i < deps.length, i ∉ listed) :
    ∃ i, next? deps.toArray listed = some i ∧ Picks deps listed i := by
  by_cases hr : ∃ i, Ready deps listed i
  · obtain ⟨i, hi, hfs⟩ := next?_of_ready hr
    exact ⟨i, hi, Or.inl hfs⟩
  · obtain ⟨i, hl, hfr⟩ := h
    obtain ⟨j, hj, hf⟩ := next?_of_stuck (not_exists.mp hr) hl hfr
    exact ⟨j, hj, Or.inr hf⟩

/-! ### The whole run -/

/-- **The run** picks one item after the other until all are listed. -/
theorem extend_picks (n : ℕ) : ∀ listed : List ℕ, listed.length + n = deps.length →
    ∃ rest, extend deps.toArray n listed = rest.reverse ++ listed ∧ rest.length = n ∧
      ∀ before i after, rest = before ++ i :: after → Picks deps (before.reverse ++ listed) i := by
  induction n with
  | zero =>
    intro listed _
    exact ⟨[], rfl, rfl, fun before i after h => by simp at h⟩
  | succ n ih =>
    intro listed hl
    obtain ⟨i, hi, hpi⟩ := next?_picks (exists_unlisted (show listed.length < deps.length by omega))
    obtain ⟨rest, hre, hr, hp⟩ := ih (i :: listed) (by rw [length_cons]; omega)
    refine ⟨i :: rest, ?_, by rw [length_cons, hr], fun before j after h => ?_⟩
    · rw [extend, hi]
      simp [hre]
    · rcases before with _ | ⟨b, before⟩
      · obtain ⟨rfl, -⟩ := List.cons.inj h
        exact hpi
      · obtain ⟨rfl, ht⟩ := List.cons.inj h
        simpa using hp before j after ht

/-- **Every item of the order is picked** when those before it are listed, and all items are. -/
theorem stableOrder_picks (deps : List (List ℕ)) : (stableOrder deps).length = deps.length ∧
    ∀ before i after, stableOrder deps = before ++ i :: after → Picks deps before i := by
  have hs : ([] : List ℕ).length + deps.length = deps.length := by simp
  obtain ⟨rest, hr, hl, hp⟩ := extend_picks deps.length [] hs
  have ho : stableOrder deps = rest := by
    unfold stableOrder
    rw [hr, append_nil, reverse_reverse]
  refine ⟨ho ▸ hl, fun before i after h => ?_⟩
  exact picks_congr (by simp) (hp before i after (ho ▸ h))

/-- A list in which no element stands behind itself has no duplicates. -/
theorem nodup_of_fresh {order : List ℕ} (h : ∀ before i after, order = before ++ i :: after → i ∉ before) :
    order.Nodup := by
  rw [nodup_iff_sublist]
  intro i hs
  have hs : ([i] ++ [i]).Sublist order := hs
  obtain ⟨before, rest, rfl, hb, hr⟩ := append_sublist_iff.mp hs
  obtain ⟨first, last, rfl⟩ := append_of_mem (singleton_sublist.mp hr)
  refine h (before ++ first) i last (by simp) ?_
  exact mem_append_left _ (singleton_sublist.mp hb)

theorem stableOrder_nodup (deps : List (List ℕ)) : (stableOrder deps).Nodup :=
  nodup_of_fresh fun before i after h => ((stableOrder_picks deps).2 before i after h).fresh

/-- The order lists all items, each once. -/
theorem stableOrder_perm (deps : List (List ℕ)) : (stableOrder deps).Perm (List.range deps.length) := by
  obtain ⟨hl, hp⟩ := stableOrder_picks deps
  have hs : stableOrder deps ⊆ List.range deps.length := by
    intro i hi
    obtain ⟨before, after, h⟩ := append_of_mem hi
    exact mem_range.mpr (hp before i after h).lt
  refine (subperm_of_subset (stableOrder_nodup deps) hs).perm_of_length_le ?_
  rw [length_range, hl]

/-! ### Items behind those they await -/

theorem Awaits.left_lt {d : ℕ} (h : Awaits deps i d) : i < deps.length := by
  by_contra hg
  obtain ⟨hd, -⟩ := h
  rw [getD_eq_default _ _ (by omega)] at hd
  simp at hd

/-- Every item has its place in the order. -/
theorem exists_split (h : i < deps.length) : ∃ before after,
    stableOrder deps = before ++ i :: after ∧ Picks deps before i := by
  have hm : i ∈ stableOrder deps := (stableOrder_perm deps).mem_iff.mpr (mem_range.mpr h)
  obtain ⟨before, after, hs⟩ := append_of_mem hm
  exact ⟨before, after, hs, (stableOrder_picks deps).2 before i after hs⟩

/-- What is left when the search is stuck leads to a cycle. -/
theorem exists_onCycle_of_stuck (hr : InRange deps) (hs : Stuck deps listed)
    (hl : j < deps.length) (hf : j ∉ listed) : ∃ k, Reaches deps j k ∧ OnCycle deps k := by
  by_contra hn
  push Not at hn
  obtain ⟨i, hi⟩ := exists_ready_of_leads_to_no_cycle hr hl hf hn
  exact hs i hi

/-- An item stands behind those that it awaits and that lead to no cycle. -/
theorem precedes_of_leads_to_no_cycle (hr : InRange deps) (hi : Awaits deps i j)
    (hn : ∀ k, Reaches deps j k → ¬ OnCycle deps k) : Precedes (stableOrder deps) j i := by
  obtain ⟨before, after, hs, hre | hf⟩ := exists_split hi.left_lt
  · exact ⟨before, after, hs, hre.1.awaited j hi⟩
  · by_contra hp
    have hfr : j ∉ before := fun hj => hp ⟨before, after, hs, hj⟩
    obtain ⟨k, hk, hc⟩ := exists_onCycle_of_stuck hr hf.stuck (hi.lt hr) hfr
    exact hn k hk hc

/-- What stands before an item is told by its place. -/
theorem mem_of_precedes {before after : List ℕ} (hs : stableOrder deps = before ++ i :: after)
    (h : Precedes (stableOrder deps) j i) : j ∈ before := by
  obtain ⟨before', after', hs', hj⟩ := h
  have hn := stableOrder_nodup deps
  rw [hs'] at hn
  have hb : i ∉ before' := fun hi => (disjoint_of_nodup_append hn) hi (.head _)
  have ha : i ∉ after' := (nodup_cons.mp hn.of_append_right).1
  have heq := (append_cons_inj_of_notMem hb ha).mp (hs'.symm.trans hs)
  exact heq.1 ▸ hj

/-- **Cycles and the order.** All items are listed, each once. An item stands behind those that it awaits
and that lead to no cycle. It stands behind all those that it awaits and that do not lead back to it, for all
items at once, exactly if each item that is listed when the search is stuck is reached from those that it
awaits and that are not listed yet. -/
theorem stableOrder_precedes_iff (hr : InRange deps) : stableOrder? deps = some (stableOrder deps) ∧
    (stableOrder deps).Perm (List.range deps.length) ∧
    (∀ i j, Awaits deps i j → (∀ k, Reaches deps j k → ¬ OnCycle deps k) → Precedes (stableOrder deps) j i) ∧
    ((∀ i j, Awaits deps i j → ¬ Reaches deps j i → Precedes (stableOrder deps) j i) ↔
      ∀ before i after, stableOrder deps = before ++ i :: after → Stuck deps before →
        ∀ j, Awaits deps i j → j ∉ before → Reaches deps j i) := by
  refine ⟨stableOrder?_of_inRange hr, stableOrder_perm deps,
    fun i j hi hn => precedes_of_leads_to_no_cycle hr hi hn, ?_, ?_⟩
  · intro ha before i after hs _ j hi hf
    by_contra hb
    exact hf (mem_of_precedes hs (ha i j hi hb))
  · intro hfo i j hi hb
    obtain ⟨before, after, hs, hre | hfr⟩ := exists_split hi.left_lt
    · exact ⟨before, after, hs, hre.1.awaited j hi⟩
    · by_contra hp
      have hf : j ∉ before := fun hj => hp ⟨before, after, hs, hj⟩
      exact hb (hfo before i after hs hfr.stuck j hi hf)

/-- Item `2` awaits item `1`, which leads to no cycle; items `0` and `3` await each other. -/
theorem stableOrder_precedes_beside_cycle :
    InRange [[3], [], [1], [0]] ∧ Precedes (stableOrder [[3], [], [1], [0]]) 1 2 := by
  have hr : InRange [[3], [], [1], [0]] := by unfold InRange; decide
  refine ⟨hr, (stableOrder_precedes_iff hr).2.2.1 2 1 ⟨by simp, by omega⟩ fun k hk hc => ?_⟩
  have ho : ∀ d, ¬ Awaits [[3], [], [1], [0]] 1 d := fun d hd => by simp [Awaits] at hd
  rcases Relation.ReflTransGen.cases_head hk with rfl | ⟨d, hd, -⟩
  · obtain ⟨d, hd, -⟩ := Relation.TransGen.head'_iff.mp hc
    exact ho d hd
  · exact ho d hd

/-- **An item that only leads to a cycle is listed too early:** item `0` awaits item `1`, which stands on a
cycle with item `2` and does not lead back, but item `0` comes first. -/
theorem stableOrder_bystander :
    InRange [[1], [2], [1]] ∧ stableOrder [[1], [2], [1]] = [0, 1, 2] ∧ Awaits [[1], [2], [1]] 0 1 ∧
      ¬ Reaches [[1], [2], [1]] 1 0 ∧ ¬ Precedes (stableOrder [[1], [2], [1]]) 1 0 := by
  have ho : stableOrder [[1], [2], [1]] = [0, 1, 2] := by decide
  refine ⟨by unfold InRange; decide, ho, ⟨by simp, by omega⟩, fun hb => ?_, fun hp => ?_⟩
  · have hs : ∀ k, Reaches [[1], [2], [1]] 1 k → k = 1 ∨ k = 2 := by
      intro k hk
      induction hk with
      | refl => exact Or.inl rfl
      | tail _ hd ih => rcases ih with rfl | rfl <;> simp_all [Awaits]
    simpa using hs 0 hb
  · have hm : 1 ∈ ([] : List ℕ) := mem_of_precedes ho hp
    simp at hm

end Polyview.Order
