import Mathlib.Data.Fintype.EquivFin
import Mathlib.Data.List.GetD
import Mathlib.Data.List.Lex
import Mathlib.Data.List.Perm.Subperm
import Mathlib.Logic.Relation
import Mathlib.Order.WellFounded
import Polyview.Order

/-! # Listing items behind what they depend on

Item `i` *awaits* item `d` if it depends on `d` and is not `d` itself. An order of all items is
*topological* if every item stands behind those it awaits. Where no item awaits itself by way of others,
`stableOrder` is a topological order, and of all of them the first one in lexicographic order
(`stableOrder_topological`, `stableOrder_le`).

The search for the next item is described once, by `next?_of_ready`: as long as some item is ready, it
finds the smallest ready one. `extend_continues` follows the whole run: what it appends to the items listed
so far is the least of all lists that could be appended. -/

namespace Polyview.Order

open List

variable {i : ℕ} {listed order : List ℕ}

/-- Item `i` awaits item `d`. -/
def Awaits (deps : List (List ℕ)) (i d : ℕ) : Prop := d ∈ deps.getD i [] ∧ d ≠ i

/-- All dependencies are items. -/
def InRange (deps : List (List ℕ)) : Prop := ∀ l ∈ deps, ∀ d ∈ l, d < deps.length

/-- No item awaits itself by way of others. -/
def Acyclic (deps : List (List ℕ)) : Prop := ∀ i, ¬ Relation.TransGen (Awaits deps) i i

/-- **A topological order:** all items, each once, and each behind those it awaits. -/
structure Topological (deps : List (List ℕ)) (order : List ℕ) : Prop where
  perm : order.Perm (List.range deps.length)
  behind : ∀ before i after, order = before ++ i :: after → ∀ d, Awaits deps i d → d ∈ before

/-- An item that can be listed next: it is not listed yet, and all that it awaits are. -/
structure Ready (deps : List (List ℕ)) (listed : List ℕ) (i : ℕ) : Prop where
  lt : i < deps.length
  fresh : i ∉ listed
  awaited : ∀ d, Awaits deps i d → d ∈ listed

/-- Items that can be listed one after the other behind those that are listed, the latest first. -/
def Continues (deps : List (List ℕ)) : List ℕ → List ℕ → Prop
  | _, [] => True
  | listed, i :: rest => Ready deps listed i ∧ Continues deps (i :: listed) rest

variable {deps : List (List ℕ)}

theorem Awaits.lt (hr : InRange deps) {d : ℕ} (h : Awaits deps i d) : d < deps.length := by
  obtain ⟨hd, -⟩ := h
  rcases Nat.lt_or_ge i deps.length with hi | hi
  · rw [getD_eq_getElem _ _ hi] at hd
    exact hr _ (getElem_mem hi) d hd
  · rw [getD_eq_default _ _ hi] at hd
    simp at hd

/-- A relation that only goes up has no cycle. -/
theorem not_transGen_of_lt {related : ℕ → ℕ → Prop} (h : ∀ i j, related i j → i < j) (i : ℕ) :
    ¬ Relation.TransGen related i i := by
  intro hi
  have hl : Relation.TransGen (· < ·) i i := Relation.TransGen.mono h i i hi
  rw [Relation.transGen_eq_self] at hl
  exact lt_irrefl i hl

/-! ### The next item -/

theorem isReady_iff : isReady deps.toArray listed i ↔ ∀ d, Awaits deps i d → d ∈ listed := by
  have hg : deps.toArray.getD i [] = deps.getD i [] := by simp
  simp only [isReady, hg, all_eq_true, Bool.or_eq_true, beq_iff_eq, contains_iff_mem]
  constructor
  · rintro h d ⟨hd, hn⟩
    exact (h d hd).resolve_left hn
  · intro h d hd
    by_cases hdi : d = i
    · exact Or.inl hdi
    · exact Or.inr (h d ⟨hd, hdi⟩)

/-- The search for a ready item looks at the items that are not listed, from the first one on. -/
theorem find?_ready_eq_some :
    ((List.range deps.length).filter fun i => !listed.contains i).find? (isReady deps.toArray listed) = some i ↔
      Ready deps listed i ∧ ∀ j, Ready deps listed j → i ≤ j := by
  rw [find?_filter, find?_range_eq_some]
  simp only [mem_range, Bool.and_eq_true, Bool.not_eq_true', Bool.decide_and, Bool.decide_eq_true, isReady_iff]
  constructor
  · rintro ⟨⟨hf, ha⟩, hl, hm⟩
    refine ⟨⟨hl, by simpa using hf, ha⟩, fun j hj => ?_⟩
    by_contra hji
    have hn := hm j (by omega)
    have hr := isReady_iff.mpr hj.awaited
    simp [hj.fresh, hr] at hn
  · rintro ⟨⟨hl, hf, ha⟩, hm⟩
    refine ⟨⟨by simpa using hf, ha⟩, hl, fun j hj => ?_⟩
    by_contra hn
    simp only [Bool.and_eq_false_iff, not_or, Bool.not_eq_false] at hn
    have := hm j ⟨by omega, by simpa using hn.1, isReady_iff.mp hn.2⟩
    omega

/-- **The next item** is the smallest ready one, if any is ready. -/
theorem next?_of_ready (h : ∃ i, Ready deps listed i) :
    ∃ i, next? deps.toArray listed = some i ∧ Ready deps listed i ∧ ∀ j, Ready deps listed j → i ≤ j := by
  classical
  let i := Nat.find h
  have hi : Ready deps listed i ∧ ∀ j, Ready deps listed j → i ≤ j := ⟨Nat.find_spec h, fun j hj => Nat.find_min' h hj⟩
  refine ⟨i, ?_, hi⟩
  simp only [next?, size_toArray, find?_ready_eq_some.mpr hi, Option.some_or]

/-- As long as an item is left that leads to no cycle, some item is ready. -/
theorem exists_ready_of_leads_to_no_cycle (hr : InRange deps) {j : ℕ} (hl : j < deps.length) (hf : j ∉ listed)
    (hn : ∀ k, Relation.ReflTransGen (Awaits deps) j k → ¬ Relation.TransGen (Awaits deps) k k) :
    ∃ i, Ready deps listed i := by
  -- an item that awaits no unlisted item, found by going down from `j` along what is awaited
  let Below := {k : Fin deps.length // Relation.ReflTransGen (Awaits deps) j k}
  let below (d i : Below) : Prop := Relation.TransGen (Awaits deps) i.1 d.1
  have : IsTrans Below below := ⟨fun _ _ _ h1 h2 => Relation.TransGen.trans h2 h1⟩
  have : Std.Irrefl below := ⟨fun i => hn i.1 i.2⟩
  have wf : WellFounded below := Finite.wellFounded_of_trans_of_irrefl below
  obtain ⟨i, hi, hm⟩ := wf.has_min {i : Below | i.1.1 ∉ listed} ⟨⟨⟨j, hl⟩, .refl⟩, hf⟩
  refine ⟨i.1, i.1.2, hi, fun d hd => ?_⟩
  by_contra hdl
  exact hm ⟨⟨d, hd.lt hr⟩, i.2.tail hd⟩ hdl (Relation.TransGen.single hd)

/-- Where no item awaits itself by way of others, an item is ready until all are listed. -/
theorem exists_ready (hr : InRange deps) (ha : Acyclic deps) (h : ∃ i < deps.length, i ∉ listed) :
    ∃ i, Ready deps listed i := by
  obtain ⟨j, hl, hf⟩ := h
  exact exists_ready_of_leads_to_no_cycle hr hl hf fun k _ => ha k

/-! ### The whole run -/

theorem exists_unlisted {n : ℕ} (hl : listed.length < n) : ∃ i < n, i ∉ listed := by
  by_contra ha
  push Not at ha
  have hs : List.range n ⊆ listed := fun i hi => ha i (mem_range.mp hi)
  have hle := (subperm_of_subset nodup_range hs).length_le
  rw [length_range] at hle
  omega

/-- **The run:** behind the items that are listed it lists one ready item after the other, and what it
lists is the first of all lists that could stand there. -/
theorem extend_continues (hr : InRange deps) (ha : Acyclic deps) (n : ℕ) :
    ∀ listed : List ℕ, listed.length + n = deps.length →
      ∃ rest, extend deps.toArray n listed = rest.reverse ++ listed ∧ rest.length = n ∧ Continues deps listed rest ∧
        ∀ other, Continues deps listed other → other.length = n → rest ≤ other := by
  induction n with
  | zero =>
    intro listed _
    refine ⟨[], rfl, rfl, trivial, fun other _ hle => ?_⟩
    rw [length_eq_zero_iff.mp hle]
  | succ n ih =>
    intro listed hle
    obtain ⟨i, hi, hre, hm⟩ :=
      next?_of_ready (exists_ready hr ha (exists_unlisted (show listed.length < deps.length by omega)))
    obtain ⟨rest, hrs, hrl, hc, hl⟩ := ih (i :: listed) (by rw [length_cons]; omega)
    refine ⟨i :: rest, ?_, by rw [length_cons, hrl], ⟨hre, hc⟩, ?_⟩
    · rw [extend, hi]
      simp [hrs]
    · intro other hot ho
      obtain ⟨j, other, rfl⟩ := exists_cons_of_length_eq_add_one ho
      obtain ⟨hj, hot⟩ := hot
      rcases Nat.lt_or_eq_of_le (hm j hj) with hij | rfl
      · exact le_of_lt (List.Lex.rel hij)
      · exact cons_le_cons i (hl other hot (by simpa using ho))

/-! ### Topological orders -/

theorem Continues.nodup : ∀ {rest listed : List ℕ}, Continues deps listed rest →
    rest.Nodup ∧ (∀ i ∈ rest, i ∉ listed) ∧ ∀ i ∈ rest, i < deps.length
  | [], _, _ => by simp
  | i :: rest, listed, ⟨hi, hr⟩ => by
    obtain ⟨hn, hf, hl⟩ := Continues.nodup hr
    refine ⟨nodup_cons.mpr ⟨fun h => hf i h (by simp), hn⟩, ?_, ?_⟩
    · intro j hj
      rcases mem_cons.mp hj with rfl | hj
      · exact hi.fresh
      · exact fun h => hf j hj (.tail _ h)
    · intro j hj
      rcases mem_cons.mp hj with rfl | hj
      · exact hi.lt
      · exact hl j hj

theorem Continues.behind : ∀ {rest listed : List ℕ}, Continues deps listed rest →
    ∀ before i after, rest = before ++ i :: after → ∀ d, Awaits deps i d → d ∈ listed ∨ d ∈ before
  | [], _, _, before, _, _, h => by simp at h
  | j :: rest, listed, ⟨hj, hr⟩, before, i, after, h => by
    intro d hd
    rcases before with _ | ⟨b, before⟩
    · obtain ⟨rfl, -⟩ := List.cons.inj h
      exact Or.inl (hj.awaited d hd)
    · obtain ⟨rfl, ht⟩ := List.cons.inj h
      rcases hr.behind before i after ht d hd with hd | hd
      · rcases mem_cons.mp hd with rfl | hd
        · exact Or.inr (by simp)
        · exact Or.inl hd
      · exact Or.inr (.tail _ hd)

theorem Continues.topological (h : Continues deps [] order) (hl : order.length = deps.length) :
    Topological deps order := by
  obtain ⟨hn, -, hlt⟩ := h.nodup
  refine ⟨?_, fun before i after ho d hd => ?_⟩
  · have hs : order ⊆ List.range deps.length := fun i hi => mem_range.mpr (hlt i hi)
    refine (subperm_of_subset hn hs).perm_of_length_le ?_
    rw [length_range, hl]
  · exact (h.behind before i after ho d hd).resolve_left (by simp)

/-- The end of a topological order continues its beginning. -/
theorem Topological.continues (h : Topological deps order) :
    ∀ rest before, order = before ++ rest → Continues deps before.reverse rest
  | [], _, _ => trivial
  | i :: rest, before, ho => by
    have hn : order.Nodup := h.perm.nodup_iff.mpr nodup_range
    refine ⟨⟨?_, ?_, fun d hd => ?_⟩, ?_⟩
    · have hi : i ∈ order := by rw [ho]; simp
      exact mem_range.mp (h.perm.mem_iff.mp hi)
    · rw [ho] at hn
      intro hi
      exact (disjoint_of_nodup_append hn) (mem_reverse.mp hi) (by simp)
    · exact mem_reverse.mpr (h.behind before i rest ho d hd)
    · have := h.continues rest (before ++ [i]) (by rw [ho]; simp)
      simpa using this

/-- **The order is topological.** -/
theorem stableOrder_topological (hr : InRange deps) (ha : Acyclic deps) : Topological deps (stableOrder deps) := by
  obtain ⟨rest, hre, hl, hc, -⟩ := extend_continues hr ha deps.length [] (by simp)
  rw [append_nil] at hre
  unfold stableOrder
  rw [hre, reverse_reverse]
  exact hc.topological hl

/-- **The order is the first** of all topological orders. -/
theorem stableOrder_le (hr : InRange deps) (ha : Acyclic deps) (h : Topological deps order) :
    stableOrder deps ≤ order := by
  obtain ⟨rest, hre, -, -, hl⟩ := extend_continues hr ha deps.length [] (by simp)
  rw [append_nil] at hre
  unfold stableOrder
  rw [hre, reverse_reverse]
  refine hl order (h.continues order [] rfl) ?_
  rw [h.perm.length_eq, length_range]

/-! ### Indices in range -/

theorem not_extendStrays (hr : InRange deps) (n : ℕ) :
    ∀ listed : List ℕ, extendStrays deps.toArray n listed = false := by
  have hs : ∀ (listed : List ℕ) (i : ℕ), strays deps.toArray listed i = false := by
    intro listed i
    unfold strays
    split
    · next d hd =>
      have hm := mem_of_find?_eq_some hd
      have hne : d ≠ i := by
        rintro rfl
        simpa using find?_some hd
      have := Awaits.lt hr (i := i) (d := d) ⟨by simpa using hm, hne⟩
      simpa using this
    · rfl
  induction n with
  | zero => intro _; rfl
  | succ n ih =>
    intro listed
    have hn : nextStrays deps.toArray listed = false := by
      unfold nextStrays
      rw [any_eq_false]
      intro i _
      rw [hs]
      decide
    rw [extendStrays, hn, Bool.false_or]
    split
    · exact ih _
    · rfl

/-- No index out of range is met where all dependencies are items. -/
theorem stableOrder?_of_inRange (hr : InRange deps) : stableOrder? deps = some (stableOrder deps) := by
  unfold stableOrder?
  rw [not_extendStrays hr]
  rfl

end Polyview.Order
