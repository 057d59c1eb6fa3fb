import Polyview.Proofs.Script.Reading.Statement
import Polyview.Script.Tree

/-! # What modules read

Imports and exports, and whole scripts. Decorators in front of an `export` were read from an earlier offset
on than the export itself; they are laid out with the class that they belong to.

`Grammar.sound_level` closes the recursion through the grammar, and `parse?_laid` says that what is read from
a text is laid out on it. -/

namespace Polyview.Script

open List

variable {g : Grammar} [g.Sound] {source : List Char} {context : Context} {c c' : Cursor} {node : Node}
  {nodes : List Node} {lo start : ℕ} {marks : List Node}

/-! ### Imports -/

@[grind .]
theorem stays_seesEntityName : Stays seesEntityName := by
  intro _ _ _ _ h
  rw [seesEntityName, runs_tokenKind_bind] at h
  split at h <;> grind

@[grind .]
theorem lays_entityName : LaysNode entityName := by
  intro _ _ _ _ _ h hc
  rw [entityName, runs_tokenKind_bind] at h
  split at h <;> grind

@[grind →]
theorem reads_specifierNames {names : SpecifierNames} (h : Runs specifierNames context c names c')
    (hc : c.On source) : ReadsNode source c.token.span.start c names.first c' ∧
      ∀ second, names.second = some second → ReadsNode source c.token.span.start c second c' := by
  unfold specifierNames at h
  grind

@[grind .]
theorem lays_importSpecifier (isTypeOnly : Bool) : LaysNode (importSpecifier isTypeOnly) := by
  intro source _ _ _ _ h hc
  simp only [importSpecifier, runs_bind, runs_startOffset, runs_flawIf, runs_read, runs_ite] at h
  obtain ⟨start, c₁, ⟨rfl, rfl⟩, names, c₂, hnm, _, c₃, rfl, _, c₄, ⟨rfl, rfl⟩, _, c₅, rfl, h⟩ := h
  obtain ⟨hf, hs⟩ := reads_specifierNames hnm hc
  have hb : ReadsNode source c₁.token.span.start c₁ (names.second.getD names.first) c₂ := by
    cases hn : names.second with
    | none => exact hf
    | some second => exact hs second hn
  split at h
  · generalize names.second.getD names.first = bound at hb h
    grind
  · exact (runs_reject.mp h).elim

@[grind .]
theorem lays_importSpecifiers (isTypeOnly : Bool) : Lays id (importSpecifiers isTypeOnly) := by
  intro _ _ _ _ _ h hc
  unfold importSpecifiers at h
  grind

@[grind .]
theorem moves_importSpecifiers (isTypeOnly : Bool) : Moves (importSpecifiers isTypeOnly) := by
  intro _ _ _ _ _ h hc
  unfold importSpecifiers at h
  grind

@[grind .]
theorem lays_namespaceSpecifier : LaysNode namespaceSpecifier := by
  intro _ _ _ _ _ h hc
  unfold namespaceSpecifier at h
  grind

@[grind .]
theorem advances_importAttribute : Advances importAttribute := by
  intro _ _ _ _ _ h hc
  unfold importAttribute at h
  grind

@[grind .]
theorem advances_importAttributes : Advances importAttributes := by
  intro _ _ _ _ _ h hc
  unfold importAttributes at h
  grind

@[grind .]
theorem moves_moduleClause : Moves moduleClause := by
  intro _ _ _ _ _ h hc
  unfold moduleClause at h
  grind

@[grind →]
theorem reads_importRest {isTypeOnly isPhase : Bool} {first : List Node}
    (h : Runs (importRest start isTypeOnly isPhase first) context c node c') (hc : c.On source) :
    Grows source start first c node c' := by
  unfold importRest at h
  grind

@[grind .]
theorem stays_seesImportType : Stays seesImportType := by
  intro _ _ _ _ h
  unfold seesImportType at h
  grind

@[grind .]
theorem stays_seesImportPhase : Stays seesImportPhase := by
  intro _ _ _ _ h
  rw [seesImportPhase, runs_keyword?_bind] at h
  split at h <;> grind

@[grind .]
theorem lays_importDeclaration : LaysNode importDeclaration := by
  intro _ _ _ _ _ h hc
  simp only [importDeclaration, runs_bind, runs_startOffset, runs_expectWord, runs_tokenKind] at h
  obtain ⟨start, _, ⟨rfl, rfl⟩, _, _, ⟨hw, rfl⟩, kind, _, ⟨rfl, rfl⟩, h⟩ := h
  split at h <;> grind

/-! ### Exports -/

@[grind .]
theorem lays_exportSpecifier (isTypeOnly : Bool) : LaysNode (exportSpecifier isTypeOnly) := by
  intro _ _ _ _ _ h hc
  unfold exportSpecifier at h
  grind

/-- The specifiers of own variables are laid out where the names were. -/
theorem Row.ownSpecifiers {own : List Node} {hi : ℕ} (h : Row source nodes lo hi)
    (ho : nodes.mapM ownSpecifier = some own) : Row source own lo hi := by
  induction nodes generalizing lo own with
  | nil =>
    cases ho
    exact row_nil.mpr trivial
  | cons specifier rest ih =>
    simp only [mapM_cons, Option.bind_eq_bind, Option.bind_eq_some_iff, Option.pure_def, Option.some.injEq] at ho
    obtain ⟨first, hf, others, hot, rfl⟩ := ho
    obtain ⟨hst, hs, hl, hr⟩ := row_cons.mp h
    have hm := ih hr hot
    unfold ownSpecifier at hf
    split at hf
    · grind
    · cases hf

grind_pattern Row.ownSpecifiers => Row source nodes lo hi, nodes.mapM ownSpecifier, some own

/-- An export that starts at an offset, with a declaration that may have been read from an earlier one on. -/
theorem reads_export {shape : Shape} (hs : shape.isExport)
    (h : Runs (finish start shape nodes) context c node c') (hc : c.On source) (hl : lo ≤ start)
    (hst : Boundary source start) (hlt : start < c.prevStop) (hp : Row source nodes lo c.prevStop) :
    ReadsLoose source lo c node c' := by
  obtain ⟨rfl, rfl⟩ := runs_finish.mp h
  have hr : shape.Requires source ⟨start, c'.prevStop⟩ nodes := by
    cases shape <;> trivial
  exact .of_mayHoist (shape.mayHoist_of_isExport hs) ⟨hc, Nat.le_refl _, Nat.le_refl _⟩ hl hst hlt
    hp hr

theorem ReadsLoose.of_leads {c'' : Cursor} (h : ReadsLoose source lo c' node c'') (hl : Leads source c c') :
    ReadsLoose source lo c node c'' :=
  ⟨⟨h.leads.on, hl.prev.trans h.leads.prev, hl.start.trans h.leads.start⟩, h.lt, h.row⟩

@[grind →]
theorem reads_exportNames {isTypeOnly : Bool} (h : Runs (exportNames start isTypeOnly) context c node c')
    (hc : c.On source) (hst : Boundary source start) (hle : start ≤ c.token.span.start) :
    ReadsLoose source start c node c' := by
  simp only [exportNames, runs_bind, runs_expect, runs_ite, runs_eatWord] at h
  obtain ⟨_, _, ⟨hop, rfl⟩, specifiers, c₁, hs, _, _, ⟨hcl, rfl⟩, isFrom, c₂, hf, h⟩ := h
  have hre : Reads source c.next.token.span.start c.next specifiers c₁ := by grind
  have hl : Leads source c c₂ ∧ start < c₂.prevStop ∧ Row source specifiers start c₂.prevStop := by
    grind
  obtain ⟨hl, hlt, hr⟩ := hl
  split at h
  · obtain ⟨_, c₃, hca, h⟩ := h
    have hca := (moves_moduleClause hca hl.on).1
    refine (reads_export rfl h hca.on (Nat.le_refl _) hst ?_ ?_).of_leads ?_
    all_goals grind
  · obtain ⟨_, c₃, he, h⟩ := h
    have he : Leads source c₂ c₃ := by grind
    split at h
    · next own ho =>
      have hr := hr.ownSpecifiers ho
      refine (reads_export rfl h he.on (Nat.le_refl _) hst ?_ ?_).of_leads ?_
      all_goals grind
    · exact (runs_reject.mp h).elim

@[grind →]
theorem reads_exportAll (h : Runs (exportAll start) context c node c') (hc : c.On source) :
    Grows source start [] c node c' := by
  unfold exportAll at h
  grind

@[grind .]
theorem advances_refuseMarks (marks : List Node) (declared : Node) : Advances (refuseMarks marks declared) := by
  intro _ _ _ _ _ h hc
  unfold refuseMarks at h
  split at h <;> grind

theorem reads_exportMarks {found : List Node} (h : Runs (exportMarks g marks) context c found c') (hc : c.On source)
    (hm : Row source marks lo c.prevStop) (hl : lo ≤ c.token.span.start) (hs : Decorators marks) :
    Leads source c c' ∧ Row source found lo c'.prevStop ∧ Decorators found := by
  unfold exportMarks at h
  grind

theorem reads_exportList? {found : Option Node} (h : Runs (exportList? g start) context c found c')
    (hc : c.On source) (hs : Boundary source start) (hl : start ≤ c.token.span.start) :
    (found = none → c' = c) ∧ ∀ node, found = some node → ReadsLoose source start c node c' := by
  rw [exportList?, runs_tokenKind_bind] at h
  split at h
  case h_4 =>
    rw [runs_bind] at h
    obtain ⟨value, c₁, hv, h⟩ := h
    have hr := lays_importDeclaration hv hc
    split at h
    · simp only [runs_bind, runs_pure] at h
      obtain ⟨node, c₂, hn, rfl, rfl⟩ := h
      have he := reads_export rfl hn hr.leads.on (Nat.le_refl _) hs
        (by grind) (hr.row.mono hl (Nat.le_refl _))
      exact ⟨by simp, by rintro _ ⟨⟩; exact he.of_leads hr.leads⟩
    · exact (runs_reject.mp h).elim
  all_goals grind

/-- The end of an export of something that was read from an offset on. -/
theorem reads_exported {shape : Shape} {value : Node} {c₁ : Cursor} (hsh : shape.isExport)
    (h : Runs (do refuseMarks marks value; finish start shape [value]) context c₁ node c')
    (hr : ReadsLoose source lo c value c₁) (hlo : lo ≤ start) (hst : Boundary source start)
    (hlt : start < c.prevStop) : ReadsLoose source lo c node c' := by
  rw [runs_bind] at h
  obtain ⟨_, c₂, hre, h⟩ := h
  have hl := advances_refuseMarks marks value hre hr.leads.on
  have hs := hr.leads.prev.trans hl.prev
  have hp := hr.row.mono (Nat.le_refl _) hl.prev
  refine (reads_export hsh h hl.on hlo hst (Nat.lt_of_lt_of_le hlt hs) hp).of_leads ?_
  exact ⟨hl.on, hs, hr.leads.start.trans hl.start⟩

theorem reads_exportDeclared (h : Runs (exportDeclared g start marks) context c node c') (hc : c.On source)
    (hlo : lo ≤ start) (hst : Boundary source start) (hlt : start < c.prevStop)
    (hm : Row source marks lo c.prevStop) (hs : Decorators marks) : ReadsLoose source lo c node c' := by
  simp only [exportDeclared, runs_bind, runs_startOffset] at h
  obtain ⟨_, _, ⟨rfl, rfl⟩, all, c₁, ha, found, c₂, hf, h⟩ := h
  obtain ⟨hl, ha, hs⟩ := reads_exportMarks ha hc hm (by grind) hs
  have hd := finds_anyDeclaration? hf hl.on (by grind)
    hc.start_boundary hl.start ha hs
  split at h
  · next declared =>
    have hr := (hd.2 declared rfl).1.of_leads hl
    replace h : Runs (do refuseMarks all declared; finish start (.exportNamed false) [declared]) context
        c₂ node c' := by
      split at h
      · rw [runs_ite] at h
        split at h
        · simp at h
        · exact h
      · exact h
    exact reads_exported rfl h hr hlo hst hlt
  · exact (runs_reject.mp h).elim

theorem reads_defaultValue (h : Runs (do
      let value ← g.assignment true
      endStatement
      let value ← pure value
      refuseMarks marks value
      finish start .exportDefault [value]) context c node c') (hc : c.On source) (hl : lo ≤ start)
    (hs : Boundary source start) (hlt : start < c.prevStop) : ReadsLoose source lo c node c' := by
  simp only [runs_bind (x := g.assignment true), runs_bind (x := endStatement), pure_bind] at h
  obtain ⟨value, c₁, hv, _, c₂, he, h⟩ := h
  refine reads_exported rfl h ?_ hl hs hlt
  grind

theorem reads_exportDefault (h : Runs (exportDefault g start marks) context c node c') (hc : c.On source)
    (hlo : lo ≤ start) (hs : Boundary source start) (hlt : start < c.prevStop)
    (hmr : Row source marks lo c.prevStop) (hsh : Decorators marks) : ReadsLoose source lo c node c' := by
  simp only [exportDefault, runs_bind, runs_startOffset, runs_expectWord] at h
  obtain ⟨_, _, ⟨hw, rfl⟩, _, _, ⟨rfl, rfl⟩, all, c₁, ha, keyword, c₂, hk, h⟩ := h
  obtain ⟨rfl, rfl⟩ := runs_keyword?.mp hk
  have hb : lo ≤ c.next.token.span.start ∧ Row source marks lo c.next.prevStop ∧
      Leads source c c.next ∧ Boundary source c.next.token.span.start := by
    clear h
    grind
  obtain ⟨hl1, hm', hn, hs'⟩ := hb
  obtain ⟨hl, ha, hsh⟩ := reads_exportMarks ha hn.on hm' hl1 hsh
  have hl' : start < c₂.prevStop := Nat.lt_of_lt_of_le hlt (hn.prev.trans hl.prev)
  have hsk : Leads source c₂ c₂.next ∧ Row source all lo c₂.next.prevStop := by
    clear h
    grind
  refine ReadsLoose.of_leads ?_ hn
  refine ReadsLoose.of_leads ?_ hl
  split at h
  case h_1 =>
    rw [runs_bind] at h
    obtain ⟨value, c₃, hv, h⟩ := h
    have hcl := reads_classRest_from hv hl.on hl1 hs' hl.start ha hsh
    exact reads_exported rfl h hcl.1 hlo hs hl'
  case h_2 =>
    rw [runs_bind] at h
    obtain ⟨isClass, _, hlk, h⟩ := h
    obtain rfl := stays_nextIs _ hlk
    rw [runs_ite] at h
    split at h
    · rw [runs_bind] at h
      obtain ⟨_, _, hm, h⟩ := h
      obtain rfl := runs_next.mp hm
      rw [runs_bind] at h
      obtain ⟨value, c₃, hv, h⟩ := h
      have hcl := reads_classRest_from hv hsk.1.on hl1 hs' (hl.start.trans hsk.1.start)
        hsk.2 hsh
      exact reads_exported rfl h (hcl.1.of_leads hsk.1) hlo hs hl'
    · exact reads_defaultValue h hl.on hlo hs hl'
  case h_3 =>
    rw [runs_bind] at h
    obtain ⟨value, c₃, hv, h⟩ := h
    refine reads_exported rfl h ?_ hlo hs hl'
    grind
  case h_4 =>
    rw [runs_bind] at h
    obtain ⟨isFunction, _, hlk, h⟩ := h
    obtain rfl := stays_nextIs _ hlk
    rw [runs_ite] at h
    split at h
    · rw [runs_bind] at h
      obtain ⟨_, _, hm, h⟩ := h
      obtain rfl := runs_next.mp hm
      rw [runs_bind] at h
      obtain ⟨value, c₃, hv, h⟩ := h
      refine reads_exported rfl h ?_ hlo hs hl'
      grind
    · exact reads_defaultValue h hl.on hlo hs hl'
  case h_5 =>
    rw [runs_bind] at h
    obtain ⟨isInterface, _, hlk, h⟩ := h
    obtain rfl := stays_nextIsNameOnLine hlk
    rw [runs_ite] at h
    split at h
    · rw [runs_bind] at h
      obtain ⟨value, c₃, hv, h⟩ := h
      refine reads_exported rfl h ?_ hlo hs hl'
      grind
    · exact reads_defaultValue h hl.on hlo hs hl'
  case h_6 => exact reads_defaultValue h hl.on hlo hs hl'

theorem reads_exportDeclaration (h : Runs (exportDeclaration g marks) context c node c') (hc : c.On source)
    (hlo : lo ≤ c.token.span.start) (hm : Row source marks lo c.prevStop) (hs : Decorators marks) :
    ReadsLoose source lo c node c' := by
  simp only [exportDeclaration, runs_bind, runs_startOffset, runs_expectWord, runs_ite, runs_seesWord] at h
  obtain ⟨_, c, ⟨rfl, rfl⟩, _, _, ⟨hw, rfl⟩, isDefault, _, ⟨rfl, hd⟩, h⟩ := h
  have hsk : Leads source c c.next ∧ c.token.span.start < c.next.prevStop ∧
      Row source marks lo c.next.prevStop := by
    clear h
    grind
  obtain ⟨hn, hlt, hm⟩ := hsk
  refine ReadsLoose.of_leads ?_ hn
  split at h
  · exact reads_exportDefault h hn.on hlo hc.start_boundary hlt hm hs
  · obtain ⟨found, c₁, hf, h⟩ := h
    have hl := reads_exportList? hf hn.on hc.start_boundary hn.start
    split at h
    · next exported =>
      have hr := hl.2 exported rfl
      grind
    · obtain rfl := hl.1 rfl
      exact reads_exportDeclared h hn.on hlo hc.start_boundary hlt hm hs

/-! ### Scripts -/

@[grind .]
theorem stays_seesImportDeclaration : Stays seesImportDeclaration := by
  intro _ _ _ _ h
  unfold seesImportDeclaration at h
  grind

theorem runs_set {u : PUnit} {cursor : Cursor} : Runs (set cursor) context c u c' ↔ c' = cursor := by
  constructor
  · rintro ⟨⟩
    rfl
  · rintro rfl
    rfl

theorem lays_moduleItem : LaysStatement (moduleItem g) := by
  intro source context c node c' h hc
  have hp {c node c'} (h : Runs (statement g) context c node c') (hc : c.On source) :
      ReadsLoose source c.token.span.start c node c' := (lays_statement h hc).loose (Nat.le_refl _)
  simp only [moduleItem, runs_bind, runs_ite, runs_seesWord, runs_sees, runs_get, runs_set] at h
  obtain ⟨isImport, c₁, hl, h⟩ := h
  obtain rfl := stays_seesImportDeclaration hl
  split at h
  · exact (lays_importDeclaration h hc).loose (Nat.le_refl _)
  · obtain ⟨isExport, c, ⟨rfl, -⟩, h⟩ := h
    split at h
    · exact reads_exportDeclaration h hc (Nat.le_refl _) (row_nil.mpr trivial) (decorators_nil.mpr trivial)
    · obtain ⟨isMarked, c, ⟨rfl, -⟩, h⟩ := h
      split at h
      · obtain ⟨c₂, _, ⟨rfl, rfl⟩, marks, _, hm, _, c₃, ⟨rfl, -⟩, h⟩ := h
        have hs := decorators_of_runs hm
        have hm : Reads source c₂.token.span.start c₂ marks c₃ := by
          clear h
          grind
        split at h
        · refine ReadsLoose.of_leads ?_ hm.leads
          exact reads_exportDeclaration h hm.leads.on hm.leads.start hm.row hs
        · obtain ⟨_, _, rfl, h⟩ := h
          exact hp h hc
      · exact hp h hc

/-- The rules of the grammar lay out what they return, however deep they are nested. -/
instance Grammar.sound_level (n : ℕ) : (Grammar.level n).Sound := by
  induction n with
  | zero =>
    constructor
    case isMarkup => intro inside context c node c' h; cases h
    all_goals intros
    all_goals intro source context c node c' h; cases h
  | succ n ih =>
    exact {
      expression := lays_expression
      assignment := lays_assignment
      binary := lays_binary
      unary := lays_unary
      leftHandSide := lays_leftHandSide
      constructed := lays_constructed
      pattern := lays_pattern
      type := lays_type
      typeOperand := lays_typeOperand
      statement := lays_moduleItem
      markup := lays_markup
      isMarkup := isMarkup_of_markup }

theorem laid_script (h : Runs (script g) context c node c') (hc : c.On source)
    (hf : c.prevStop = c.token.span.start) : node.Laid source := by
  simp only [script, runs_bind, runs_startOffset] at h
  obtain ⟨_, c₁, ⟨rfl, rfl⟩, statements, c₂, hst, h⟩ := h
  have ha : Stays (do return (← tokenKind) == .eof) := by
    intro context c yes c' h
    grind
  obtain ⟨hl, hr⟩ := Grammar.Sound.statement.manyUntil ha.advances hst hc
  obtain ⟨rfl, rfl⟩ := runs_finish.mp h
  have hle : c₁.token.span.start ≤ c'.prevStop := hf ▸ hl.prev
  have hh : Shape.program.mayHoist = false := rfl
  rw [laid_mk, outset_mk_of_not_mayHoist hh]
  have he : Shape.program.mayBeEmpty := rfl
  refine ⟨hc.start_boundary, hl.on.prev, hle, fun hs => ?_, trivial, hr.sublist (dropWhile_sublist _)⟩
  rw [he] at hs
  cases hs

/-- What is left of a text behind its mark and behind its first line. -/
theorem follows_skipMarks (source : List Char) : Follows source (skipMarks source).1 (skipMarks source).2 := by
  unfold skipMarks
  split
  next start text hm =>
  have hf : Follows source start text := by
    split at hm
    · split at hm
      · cases hm
        exact ⟨[_], rfl, by simp⟩
      · cases hm
        exact follows_zero _
    · cases hm
      exact follows_zero _
  split
  · refine hf.takes ⟨_, ?_, rfl⟩
    exact (prefix_iff_eq_append.mp (List.takeWhile_prefix _)).symm
  · exact hf

theorem parse?_laid {jsx : Bool} {tree : Tree} (h : parse? jsx source = some tree) : tree.root.Laid source := by
  simp only [parse?] at h
  split at h
  · next root cursor hr =>
    have hl := laid_script hr (Cursor.on_first (follows_skipMarks source)) rfl
    split at h
    · cases h
    · cases h
      exact hl
  · cases h

end Polyview.Script
