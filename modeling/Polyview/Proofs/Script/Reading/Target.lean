import Polyview.Proofs.Script.Layout

/-! # The layout of targets

A target lies inside of the expression that it is made of: it is the expression without the parentheses
around it, with other shapes. -/

namespace Polyview.Script

variable {source : List Char} {node target : Node} {nodes targets : List Node} {lo hi : ℕ}

/-- A tree is laid out inside of the span of another, and is not empty. -/
structure Fills (source : List Char) (node target : Node) : Prop where
  laid : target.Laid source
  start : node.outset ≤ target.outset
  stop : target.span.stop ≤ node.span.stop
  wide : target.span.start < target.span.stop
  flush : target.outset = target.span.start

attribute [grind →] Fills.laid Fills.start Fills.stop Fills.wide Fills.flush
attribute [grind] Fills

@[grind →]
theorem fills_simpleTarget? (h : simpleTarget? node = some target) (hl : node.Laid source) :
    Fills source node target := by
  fun_induction simpleTarget? node generalizing target
  all_goals grind [Option.map_eq_some_iff]

theorem Row.refill (h : Row source (node :: nodes) lo hi) (hf : node.Laid source → Fills source node target)
    (hr : ∀ lo, Row source nodes lo hi → Row source targets lo hi) : Row source (target :: targets) lo hi := by
  obtain ⟨hst, hs, hl, hm⟩ := row_cons.mp h
  have hin := hf hl
  have hfs := hin.start
  have hla := hin.stop
  refine row_cons.mpr ⟨by omega, by omega, hin.laid, ?_⟩
  exact (hr _ hm).mono hla (Nat.le_refl _)

/-- The targets of a literal are laid out where its parts are. -/
theorem fills_targets : (∀ node target, target? node = some target → node.Laid source → Fills source node target) ∧
      (∀ nodes targets lo hi, propertyTargets? nodes = some targets → Row source nodes lo hi →
        Row source targets lo hi) ∧
      (∀ node target, elementTarget? node = some target → node.Laid source → Fills source node target) ∧
      ∀ nodes targets lo hi, elementTargets? nodes = some targets → Row source nodes lo hi →
        Row source targets lo hi := by
  apply target?.mutual_induct
  case case4 =>
    intro shape span parts ha ho hp target h hl
    rw [target?.eq_4 _ _ _ ha ho hp] at h
    exact fills_simpleTarget? h hl
  case case8 =>
    intro shape span parts has ha ho target h hl
    rw [elementTarget?.eq_4 _ _ _ has ha ho] at h
    exact fills_simpleTarget? h hl
  case case11 =>
    intro span key value rest target targets hr ht ihvalue ihrest found lo hi h hro
    simp only [propertyTargets?, hr, ht, Option.some.injEq] at h
    subst h
    refine hro.refill (fun hl => ?_) fun lo hm => ihrest _ _ _ hr hm
    have hv := ihvalue _ ht
    grind
  case case14 =>
    intro span parts rest ih targets lo hi h hro
    simp only [propertyTargets?, Option.map_eq_some_iff] at h
    obtain ⟨others, hr, rfl⟩ := h
    refine hro.refill (fun hl => ?_) fun lo hm => ih _ _ _ hr hm
    grind
  case case19 =>
    intro element rest hla hh target targets hr ht ihvalue ihrest found lo hi h hro
    simp only [elementTargets?, hr, ht, Option.some.injEq] at h
    subst h
    exact hro.refill (ihvalue _ ht) fun lo hm => ihrest _ _ _ hr hm
  all_goals intros
  all_goals simp_all only [target?, elementTarget?, elementTargets?, propertyTargets?, Option.map_eq_some_iff]
  all_goals grind

@[grind →]
theorem fills_target? (h : target? node = some target) (hl : node.Laid source) : Fills source node target :=
  fills_targets.1 node target h hl

@[grind →]
theorem fills_assignTarget? {op : AssignOp} (h : assignTarget? op node = some target)
    (hl : node.Laid source) : Fills source node target := by
  unfold assignTarget? at h
  split at h
  · exact fills_target? h hl
  · exact fills_simpleTarget? h hl

end Polyview.Script
